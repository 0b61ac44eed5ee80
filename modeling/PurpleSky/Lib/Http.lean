import PurpleSky.Lib.Json

/-!
# HTTP messages

Requests and responses, as far as a service looks at them. A list of headers has the names in lower
case and may have a name more than once; it is read by the first value of a name, and written by
replacing all of them.

* **`Headers.get_insert`**, `Response.get_withHeaders`: what is read after headers were written.
-/

namespace PurpleSky.Http

open Bytes

/-- The method of a request. -/
inductive Method where
  | get
  | head
  | post
  | put
  | delete
  | options
  | other (name : Bytes)
  deriving DecidableEq, Repr

/-! ## Headers -/

/-- Headers, by their names in lower case. -/
abbrev Headers := List (Bytes × Bytes)

/-- The first value of a header. -/
def Headers.get (headers : Headers) (name : Bytes) : Option Bytes := headers.lookup name

/-- Replace the values of a header. -/
def Headers.insert (headers : Headers) (name value : Bytes) : Headers :=
  (name, value) :: headers.filter fun header => header.1 ≠ name

/-- A byte that may stand in a text. -/
def isVisible (b : UInt8) : Bool := (32 ≤ b && b < 127) || b = 9

/-- The value of a header as a text. -/
def text (value : Bytes) : Option Bytes := if value.all isVisible then some value else none

/-- The text of the first value of a header. -/
def Headers.text (headers : Headers) (name : Bytes) : Option Bytes :=
  (headers.get name).bind Http.text

/-- A header value that is a text is that text. -/
theorem text_eq_some {value s : Bytes} (h : text value = some s) : value = s := by
  unfold text at h
  split_ifs at h
  exact Option.some.inj h

/-- A header that is read as a text is there. -/
theorem Headers.get_of_text {headers : Headers} {name s : Bytes} (h : headers.text name = some s) :
    headers.get name = some s := by
  obtain ⟨value, hvalue, htext⟩ := Option.bind_eq_some_iff.mp h
  rw [hvalue, text_eq_some htext]

/-- A header is the first of its name. -/
theorem Headers.get_cons (name value : Bytes) (headers : Headers) (other : Bytes) :
    Headers.get ((name, value) :: headers) other =
      if other = name then some value else headers.get other := by
  unfold get
  rw [List.lookup_cons]
  by_cases h : other = name
  · simp [h]
  · rw [if_neg h, beq_eq_false_iff_ne.mpr h]

/-- Headers of distinct names are all found. -/
theorem Headers.get_of_mem {headers : Headers} (hnd : (headers.map Prod.fst).Nodup)
    {header : Bytes × Bytes} (h : header ∈ headers) :
    headers.get header.1 = some header.2 := by
  induction headers with
  | nil => cases h
  | cons first headers ih =>
      obtain ⟨n, v⟩ := first
      obtain ⟨hnot, hnd⟩ := List.nodup_cons.mp hnd
      rw [get_cons]
      rcases List.mem_cons.mp h with rfl | hmem
      · exact if_pos rfl
      · rw [if_neg fun heq => hnot (List.mem_map.mpr ⟨header, hmem, heq⟩), ih hnd hmem]

/-- What was written is read, and other headers are as they were. -/
theorem Headers.get_insert (headers : Headers) (name value other : Bytes) :
    (headers.insert name value).get other =
      if other = name then some value else headers.get other := by
  rw [insert, get_cons]
  by_cases h : other = name
  · rw [if_pos h, if_pos h]
  · rw [if_neg h, if_neg h]
    induction headers with
    | nil => rfl
    | cons header headers ih =>
        obtain ⟨n, v⟩ := header
        by_cases hn : n = name
        · rw [List.filter_cons_of_neg (by simpa using hn), get_cons, if_neg fun heq => h (heq.trans hn)]
          exact ih
        · rw [List.filter_cons_of_pos (by simpa using hn), get_cons, get_cons, ih]

/-! ## Messages -/

/-- A request. Of its body there is the JSON value that it has, if it was sent as one and within the
limit of the service; `query` has the parameters after the path. -/
structure Request where
  method : Method
  path : Bytes
  query : List (Bytes × Bytes)
  headers : Headers
  json : Option Json

/-- A response with a body of some type. -/
structure Response (β : Type) where
  status : Nat
  headers : Headers
  body : β

/-- Write a header of a response. -/
def Response.header {β : Type} (response : Response β) (name value : Bytes) : Response β :=
  { response with headers := response.headers.insert name value }

/-- A header does not change the status. -/
@[simp] theorem Response.status_header {β : Type} (response : Response β) (name value : Bytes) :
    (response.header name value).status = response.status := rfl

/-- A header that is set is found, and the others stay. -/
@[simp] theorem Response.get_header {β : Type} (response : Response β) (name value other : Bytes) :
    (response.header name value).headers.get other =
      if other = name then some value else response.headers.get other :=
  Headers.get_insert _ _ _ _

/-- Write headers of a response, one after the other. -/
def Response.withHeaders {β : Type} (headers : Headers) (response : Response β) : Response β :=
  headers.foldl (fun response header => response.header header.1 header.2) response

/-- Headers are set in turn. -/
theorem Response.withHeaders_cons {β : Type} (header : Bytes × Bytes) (headers : Headers)
    (response : Response β) : response.withHeaders (header :: headers) =
      (response.header header.1 header.2).withHeaders headers := rfl

/-- Headers do not change the status. -/
@[simp] theorem Response.status_withHeaders {β : Type} (headers : Headers) (response : Response β) :
    (response.withHeaders headers).status = response.status := by
  induction headers generalizing response with
  | nil => rfl
  | cons header headers ih => rw [withHeaders_cons, ih, status_header]

/-- What was written under different names is read, and other headers are as they were. -/
theorem Response.get_withHeaders {β : Type} {headers : Headers}
    (hnd : (headers.map Prod.fst).Nodup) (response : Response β) (name : Bytes) :
    (response.withHeaders headers).headers.get name =
      (headers.get name).or (response.headers.get name) := by
  induction headers generalizing response with
  | nil => rfl
  | cons header headers ih =>
      obtain ⟨n, v⟩ := header
      obtain ⟨hnot, hnd⟩ := List.nodup_cons.mp hnd
      rw [withHeaders_cons, ih hnd, get_header, Headers.get_cons]
      by_cases h : name = n
      · have hnone : Headers.get headers n = none := by
          refine List.lookup_eq_none_iff.mpr fun header hheader => bne_iff_ne.mpr fun heq => hnot ?_
          exact List.mem_map.mpr ⟨header, hheader, heq.symm⟩
        rw [if_pos h, h, hnone, if_pos rfl]
        rfl
      · rw [if_neg h, if_neg h]

/-! ## Paths -/

/-- A path without its escapes: each `%` before two hexadecimal digits stands for their byte. -/
def percentDecode : Bytes → Bytes
  | 37 :: x :: y :: rest =>
      match hexValue? x, hexValue? y with
      | some h, some l => UInt8.ofNat (h * 16 + l) :: percentDecode rest
      | _, _ => 37 :: percentDecode (x :: y :: rest)
  | b :: rest => b :: percentDecode rest
  | [] => []

/-- Bytes that are a text. -/
def isUtf8 (s : Bytes) : Bool := (ByteArray.mk s.toArray).validateUTF8

end PurpleSky.Http
