import PurpleSky.Lib.Bytes

/-!
# URLs

What is looked at of a parsed URL, and what is put together again from it. The parser itself is a
parameter of the modules that use it.
-/

namespace PurpleSky

open Bytes

/-- A parsed URL, as far as it is looked at. A default port is no port. -/
structure Url where
  scheme : Bytes
  username : Bytes
  password : Option Bytes
  host : Option Bytes
  port : Option Nat
  path : Bytes
  query : Option Bytes
  fragment : Option Bytes
  deriving DecidableEq, Repr

namespace Url

/-- The host, with the port if there is one. -/
def hostPort (url : Url) : Bytes :=
  url.host.getD [] ++
    match url.port with
    | some port => 58 :: decimal port
    | none => []

/-- The text of the origin. Only some schemes have one that is not opaque. -/
def originText (url : Url) : Bytes :=
  if [str "https", str "http", str "wss", str "ws", str "ftp"].contains url.scheme then
    url.scheme ++ str "://" ++ url.hostPort
  else str "null"

end Url

/-- A decimal number below 256, without a leading zero. -/
def parseOctet (s : Bytes) : Option Nat :=
  if s ≠ [] ∧ s.length ≤ 3 ∧ s.all isDigit ∧ (s.length = 1 ∨ s.head? ≠ some 48) ∧ ofDecimal s < 256
  then some (ofDecimal s)
  else none

/-- The four numbers of an IPv4 address. -/
def parseIpv4 (s : Bytes) : Option (List Nat) :=
  let parts := s.splitOn 46
  if parts.length = 4 then parts.mapM parseOctet else none

/-- The host of a URL is this machine. An IPv6 host stands in brackets, and is not read as an
address. -/
def isLoopback (host : Bytes) : Bool :=
  host = str "localhost" || (parseIpv4 host).any fun parts => parts.head? = some 127

end PurpleSky
