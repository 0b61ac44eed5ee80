import PurpleSky.Node.Evidence

/-!
# Settings that can be used

Account settings are validated when they are saved, and the client validates its configuration again
when it is made of them. The two look at the URL of the provider in different ways: the settings at
what is parsed, and the client at the text too.

* `origin_of_validate`: the service of validated settings is a host name, or this machine.
* **`usable_iff_clean`**: a client is made of validated settings where the text of the provider has
  no user information, no white space and no control code, and only there.
-/

namespace PurpleSky.Node

open Bytes Credentials Farcaster

/-- What the standard of URLs says of a parser: a port is a number of sixteen bits, and an origin is
read as it was written, by itself and before a path. -/
structure UrlStandard (parse : Bytes → Option Url) : Prop where
  port : ∀ s url, parse s = some url → ∀ port ∈ url.port, port < 65536
  origin : ∀ s url host, parse s = some url → url.scheme = str "https" ∨ url.scheme = str "http" →
    url.host = some host → parse url.originText =
      some ⟨url.scheme, [], none, some host, url.port, str "/", none, none⟩
  path : ∀ s url host, parse s = some url → url.scheme = str "https" ∨ url.scheme = str "http" →
    url.host = some host → ∀ name, name.all isLower = true → parse (url.originText ++ 47 :: name) =
      some ⟨url.scheme, [], none, some host, url.port, 47 :: name, none, none⟩

/-- The text of the relay. -/
def relayText : Bytes := str "https://relay.farcaster.xyz"

/-- The relay, as it is parsed. -/
def relayOrigin : Url :=
  ⟨str "https", [], none, some (str "relay.farcaster.xyz"), none, str "/", none, none⟩

/-- A text without user information, white space and control codes. -/
def Clean (text : Bytes) : Prop :=
  text.contains 64 = false ∧ text.all (fun b => 32 < b && b ≠ 127) = true

instance (text : Bytes) : Decidable (Clean text) := inferInstanceAs (Decidable (_ ∧ _))

/-- What both validations ask of a URL. -/
structure Secure (url : Url) : Prop where
  scheme : url.scheme = str "https" ∨ (url.scheme = str "http" ∧ url.host.any isLoopback)
  host : url.host ≠ none
  username : url.username = []
  password : url.password = none
  query : url.query = none
  fragment : url.fragment = none

variable {K : Crates}

/-! ## The two validations -/

theorem origin_eq_ok {value : Bytes} {url : Url} :
    Settings.origin K value = .ok url ↔
      value.length ≤ 2048 ∧ K.parseUrl value = some url ∧ Secure url ∧ url.path = str "/" := by
  simp only [Settings.origin, bind_eq_ok, ensure_eq_ok, okOr_eq_ok, pure_eq_ok]
  constructor
  · rintro ⟨_, hlength, _, hparse, _, ⟨hscheme, hname, hpassword, hquery, hfragment, hpath, hhost⟩, rfl⟩
    exact ⟨hlength, hparse, ⟨hscheme, hhost, hname, hpassword, hquery, hfragment⟩, hpath⟩
  · rintro ⟨hlength, hparse, h, hpath⟩
    exact ⟨(), hlength, url, hparse, (),
      ⟨h.scheme, h.username, h.password, h.query, h.fragment, hpath, h.host⟩, rfl⟩

theorem safeUrl_eq_ok {C : Farcaster.Crates} {input : Bytes} {url : Url} :
    safeUrl C input = .ok url ↔
      input.length ≤ 2048 ∧ C.parseUrl input = some url ∧ Secure url ∧ Clean input := by
  simp only [safeUrl, bind_eq_ok, ensure_eq_ok, okOr_eq_ok, pure_eq_ok]
  constructor
  · rintro ⟨_, hlength, _, hparse, _,
      ⟨hscheme, hhost, hat, hname, hpassword, hquery, hfragment, hall⟩, rfl⟩
    exact ⟨hlength, hparse, ⟨hscheme, hhost, hname, hpassword, hquery, hfragment⟩, hat, hall⟩
  · rintro ⟨hlength, hparse, h, hat, hall⟩
    exact ⟨(), hlength, url, hparse, (),
      ⟨h.scheme, h.host, hat, h.username, h.password, h.query, h.fragment, hall⟩, rfl⟩

/-- The client refuses a text for one reason. -/
theorem throws_safeUrl {C : Farcaster.Crates} {input : Bytes} :
    Throws (fun e => e = .invalidConfig) (safeUrl C input) := by
  unfold safeUrl
  refine Throws.bind (throws_ensure fun _ => rfl) fun _ _ => ?_
  refine Throws.bind (throws_okOr fun _ => rfl) fun _ _ => ?_
  exact Throws.bind (throws_ensure fun _ => rfl) fun _ _ => throws_pure _

theorem throws_validate {C : Farcaster.Crates} {config : AuthConfig} :
    Throws (fun e => e = .invalidConfig) (config.validate C) := by
  unfold AuthConfig.validate
  refine Throws.bind throws_safeUrl fun _ _ =>
    Throws.bind (throws_ensure fun _ => rfl) fun _ _ => ?_
  refine Throws.bind throws_safeUrl fun _ _ =>
    Throws.bind (throws_ensure fun _ => rfl) fun _ _ => ?_
  exact Throws.bind throws_safeUrl fun _ _ => throws_pure _

/-- A validated origin is a safe URL where its text is clean. -/
theorem safeUrl_of_origin {value : Bytes} {url : Url} (h : Settings.origin K value = .ok url) :
    (Clean value → safeUrl K.toCrates value = .ok url) ∧
    (¬Clean value → safeUrl K.toCrates value = .error .invalidConfig) := by
  obtain ⟨hlength, hparse, hsecure, -⟩ := origin_eq_ok.mp h
  refine ⟨fun hclean => safeUrl_eq_ok.mpr ⟨hlength, hparse, hsecure, hclean⟩, fun hclean => ?_⟩
  match hsafe : safeUrl K.toCrates value with
  | .ok url' => exact absurd (safeUrl_eq_ok.mp hsafe).2.2.2 hclean
  | .error e => rw [throws_safeUrl e hsafe]

/-! ## The service -/

/-- A host name has only letters, digits, dots and hyphens. -/
theorem mem_validHostname {host : Bytes} (h : validHostname host = true) {b : UInt8}
    (hb : b ∈ host) :
    (isAlnum b || (str ".:-").contains b) = true := by
  simp only [validHostname, Bool.and_eq_true] at h
  by_cases hdot : b = 46
  · rw [hdot]
    rfl
  · obtain ⟨part, hpart, hmem⟩ := exists_part_of_mem hb hdot
    have hlabel := List.all_eq_true.mp h.1.2 part hpart
    simp only [Repo.Syntax.labelValid, Bool.and_eq_true] at hlabel
    have hchar := List.all_eq_true.mp hlabel.2 b hmem
    simp only [Bool.or_eq_true, beq_iff_eq] at hchar
    rcases hchar with (hlower | hdigit) | rfl
    · simp [isAlnum, isAlpha, hlower]
    · simp [isAlnum, hdigit]
    · rfl

/-- The service of settings: a host name without a port, or this machine. -/
structure Service (url : Url) (host : Bytes) : Prop where
  found : url.host = some host
  scheme : url.scheme = str "https" ∨ url.scheme = str "http"
  short : url.hostPort.length ≤ 253
  bytes : ∀ b ∈ url.hostPort, (isAlnum b || (str ".:-").contains b) = true
  name : host ≠ []

/-- The service of validated settings. -/
theorem origin_of_validate (hurl : UrlStandard K.parseUrl) {settings : Settings}
    (henabled : settings.enabled = true) (h : settings.validate K = .ok ()) :
    ∃ service host rpc, Settings.origin K settings.serviceUrl = .ok service ∧ Service service host ∧
      Settings.origin K settings.optimismRpcUrl = .ok rpc := by
  have hservice : ¬(settings.serviceUrl = [] ∧ settings.enabled = false) := by
    rintro ⟨-, hdisabled⟩
    rw [henabled] at hdisabled
    cases hdisabled
  rw [Settings.validate, if_neg hservice] at h
  simp only [bind_eq_ok, ensure_eq_ok] at h
  obtain ⟨_, -, service, horigin, _, -, rpc, hrpc, identity, hidentity, h⟩ := h
  have hvalid := Store.mapError_eq_ok.mp h
  simp only [Settings.identity, bind_eq_ok, okOr_eq_ok, pure_eq_ok] at hidentity
  obtain ⟨url, horigin', host, hhost, rfl⟩ := hidentity
  obtain rfl : service = url := Except.ok.inj (horigin.symm.trans horigin')
  obtain ⟨-, hparse, hsecure, -⟩ := origin_eq_ok.mp horigin
  have hscheme : service.scheme = str "https" ∨ service.scheme = str "http" :=
    hsecure.scheme.imp_right And.left
  have hreads := hurl.origin _ service host hparse hscheme hhost
  refine ⟨service, host, rpc, horigin, ?_, hrpc⟩
  simp only [Identity.validate, bind_eq_ok, okOr_eq_ok, ensure_eq_ok] at hvalid
  obtain ⟨url, hparsed, _, -, hvalid⟩ := hvalid
  have hparsed : K.parseUrl service.originText = some url := hparsed
  obtain rfl := Option.some.inj (hreads.symm.trans hparsed)
  by_cases hlocal : service.scheme = str "http" ∧ some host = some (str "localhost")
  · obtain rfl := Option.some.inj hlocal.2
    have hport := hurl.port _ service hparse
    have hname : ∀ b ∈ str "localhost", (isAlnum b || (str ".:-").contains b) = true := by
      decide +kernel
    have hlength : (str "localhost").length = 9 := rfl
    refine ⟨hhost, hscheme, ?_, ?_, by decide⟩
    · rw [Url.hostPort, hhost, Option.getD_some, List.length_append, hlength]
      cases hp : service.port with
      | none => exact Nat.le_of_ble_eq_true rfl
      | some port =>
          have hdigits := length_decimal_le (by decide : 0 < 5)
            (lt_trans (hport port hp) (by decide : 65536 < 10 ^ 5))
          rw [List.length_cons]
          omega
    · rw [Url.hostPort, hhost, Option.getD_some]
      intro b hb
      rcases List.mem_append.mp hb with hb | hb
      · exact hname b hb
      · cases hp : service.port with
        | none =>
            rw [hp] at hb
            cases hb
        | some port =>
            rw [hp] at hb
            rcases List.mem_cons.mp hb with rfl | hb
            · rfl
            · simp [isAlnum, isDigit_of_mem_decimal hb]
  · rw [if_neg hlocal] at hvalid
    simp only [bind_eq_ok, okOr_eq_ok, ensure_eq_ok] at hvalid
    obtain ⟨did, -, name, -, _, ⟨-, -, hhostname, -⟩, -, hport, hsame⟩ := hvalid
    obtain rfl := Option.some.inj hsame
    have hpart : service.hostPort = host := by
      rw [Url.hostPort, hhost, hport, Option.getD_some, List.append_nil]
    refine ⟨hhost, hscheme, ?_, ?_, ?_⟩
    · rw [hpart]
      have hlength := hhostname
      simp only [validHostname, Bool.and_eq_true, decide_eq_true_eq] at hlength
      exact hlength.1.1.1
    · rw [hpart]
      exact fun b hb => mem_validHostname hhostname hb
    · rintro rfl
      cases hhostname

/-! ## The client -/

/-- The text of the sign-in page is safe. -/
theorem safeUrl_account (hurl : UrlStandard K.parseUrl) {value host : Bytes} {service : Url}
    (horigin : Settings.origin K value = .ok service) (h : Service service host) :
    ∃ url, safeUrl K.toCrates (service.originText ++ str "/account") = .ok url ∧
      url.hostPort = service.hostPort := by
  obtain ⟨-, hparse, hsecure, -⟩ := origin_eq_ok.mp horigin
  have hpath : str "/account" = 47 :: str "account" := rfl
  have hreads := hurl.path value service host hparse h.scheme h.found (str "account") (by decide)
  rw [← hpath] at hreads
  have htext : service.originText = service.scheme ++ str "://" ++ service.hostPort := by
    rw [Url.originText, if_pos]
    rcases h.scheme with heq | heq
    · rw [heq]
      decide +kernel
    · rw [heq]
      decide +kernel
  have hscheme : service.scheme.length ≤ 5 ∧ ∀ b ∈ service.scheme, isAlnum b = true := by
    rcases h.scheme with heq | heq
    · rw [heq]
      decide +kernel
    · rw [heq]
      decide +kernel
  have hseparators : ∀ b ∈ str "://" ++ str "/account", b ≠ 64 ∧ (32 < b && b ≠ 127) = true := by
    decide +kernel
  have hplain : ∀ b : UInt8, (isAlnum b || (str ".:-").contains b) = true →
      b ≠ 64 ∧ (32 < b && b ≠ 127) = true := by decide +kernel
  have hall : ∀ b ∈ service.originText ++ str "/account", b ≠ 64 ∧ (32 < b && b ≠ 127) = true := by
    intro b hb
    rw [htext] at hb
    simp only [List.mem_append] at hb hseparators
    rcases hb with ((hb | hb) | hb) | hb
    · apply hplain
      rw [hscheme.2 b hb, Bool.true_or]
    · exact hseparators b (.inl hb)
    · exact hplain b (h.bytes b hb)
    · exact hseparators b (.inr hb)
  refine ⟨_, safeUrl_eq_ok.mpr ⟨?_, hreads, ?_, ?_, ?_⟩, ?_⟩
  · have hlength : (str "://").length = 3 ∧ (str "/account").length = 8 := ⟨rfl, rfl⟩
    have hshort := h.short
    rw [htext, List.length_append, List.length_append, List.length_append, hlength.1, hlength.2]
    omega
  · refine ⟨?_, Option.some_ne_none _, rfl, rfl, rfl, rfl⟩
    have hsame := hsecure.scheme
    rw [h.found] at hsame
    exact hsame
  · refine Bool.eq_false_iff.mpr fun hmem => ?_
    exact (hall 64 (List.contains_iff_mem.mp hmem)).1 rfl
  · exact List.all_eq_true.mpr fun b hb => (hall b hb).2
  · rw [Url.hostPort, Url.hostPort, h.found]

/-- **Saved settings can be used where the text of the provider is clean.** For account settings
that are enabled and pass validation, the configuration of the client that is made of them passes
validation if, and only if, the text of the provider has no `@`, no white space and no control code.
Elsewhere the client is never made. -/
theorem usable_iff_clean {K : Crates} (hurl : UrlStandard K.parseUrl)
    (hrelay : K.parseUrl relayText = some relayOrigin) {settings : Settings}
    (henabled : settings.enabled = true) (hvalid : settings.validate K = .ok ()) :
    ∃ origin, K.parseUrl settings.serviceUrl = some origin ∧
      let config : AuthConfig := ⟨origin.hostPort, origin.originText ++ str "/account", relayText,
        settings.optimismRpcUrl⟩
      (config.validate K.toCrates = .ok () ↔ Clean settings.optimismRpcUrl) ∧
      ((∃ client, Core.client K settings = .ok client) ↔ Clean settings.optimismRpcUrl) ∧
      (¬Clean settings.optimismRpcUrl → config.validate K.toCrates = .error .invalidConfig ∧
        Core.client K settings = .error (.auth .invalidConfig)) := by
  obtain ⟨service, host, rpc, horigin, hservice, hrpc⟩ := origin_of_validate hurl henabled hvalid
  obtain ⟨url, haccount, hdomain⟩ := safeUrl_account hurl horigin hservice
  obtain ⟨-, hparse, -, -⟩ := origin_eq_ok.mp horigin
  obtain ⟨hsafe, hrefused⟩ := safeUrl_of_origin hrpc
  have hsecure : safeUrl K.toCrates relayText = .ok relayOrigin :=
    safeUrl_eq_ok.mpr ⟨by decide +kernel, hrelay,
      ⟨.inl rfl, Option.some_ne_none _, rfl, rfl, rfl, rfl⟩, by decide +kernel⟩
  have hne : service.hostPort ≠ [] := by
    rw [Url.hostPort, hservice.found, Option.getD_some]
    exact fun h => hservice.name (List.append_eq_nil_iff.mp h).1
  refine ⟨service, hparse, ?_⟩
  intro config
  have hbytes : config.domain = url.hostPort ∧ config.domain.length ≤ 253 ∧ config.domain ≠ [] ∧
      config.domain.all (fun b => isAlnum b || (str ".:-").contains b) = true :=
    ⟨hdomain.symm, hservice.short, hne, List.all_eq_true.mpr hservice.bytes⟩
  have hclient : Core.client K settings = (AuthClient.new K.toCrates config).mapError .auth := by
    unfold Core.client
    rw [ensure, if_pos henabled, hparse]
    rfl
  by_cases hclean : Clean settings.optimismRpcUrl
  · have hok : config.validate K.toCrates = .ok () := by
      simp only [AuthConfig.validate, bind_eq_ok, ensure_eq_ok, pure_eq_ok]
      exact ⟨url, haccount, (), hbytes, relayOrigin, hsecure, (), rfl, rpc, hsafe hclean, trivial⟩
    have hnew : Core.client K settings = .ok ⟨config, relayOrigin, rpc⟩ := by
      have hrelayUrl : safeUrl K.toCrates config.relayUrl = .ok relayOrigin := hsecure
      have hrpcUrl : safeUrl K.toCrates config.optimismRpcUrl = .ok rpc := hsafe hclean
      rw [hclient, AuthClient.new, hok, hrelayUrl, hrpcUrl]
      rfl
    exact ⟨iff_of_true hok hclean, iff_of_true ⟨_, hnew⟩ hclean, fun h => absurd hclean h⟩
  · have herror : config.validate K.toCrates = .error .invalidConfig := by
      cases hresult : config.validate K.toCrates with
      | ok _ =>
          simp only [AuthConfig.validate, bind_eq_ok] at hresult
          obtain ⟨_, -, _, -, _, -, _, -, _, hok, -⟩ := hresult
          cases (hrefused hclean).symm.trans hok
      | error e => rw [throws_validate e hresult]
    have hnone : Core.client K settings = .error (.auth .invalidConfig) := by
      rw [hclient, AuthClient.new, herror]
      rfl
    refine ⟨iff_of_false ?_ hclean, iff_of_false ?_ hclean, fun _ => ⟨herror, hnone⟩⟩
    · rw [herror]
      intro h
      cases h
    · rw [hnone]
      rintro ⟨client, h⟩
      cases h

/-! ## A text that is not clean -/

/-- A byte of a host of the sample. -/
def sampleHostByte (b : UInt8) : Bool := isLower b || isDigit b || b = 46 || b = 45

/-- A host, and a path of one name. -/
def sampleHost (rest : Bytes) : Option Url :=
  let (host, name) := (splitOnce 47 rest).getD (rest, [])
  if host ≠ [] ∧ host.all sampleHostByte ∧ name.all isLower then
    some ⟨str "https", [], none, some host, none, 47 :: name, none, none⟩
  else none

/-- A parser of URLs of hosts and simple paths. An empty user name leaves no trace. -/
def sampleParseUrl (s : Bytes) : Option Url :=
  (stripPrefix (str "https://") s).bind fun rest =>
    sampleHost (if rest.head? = some 64 then rest.tail else rest)

theorem sampleParseUrl_eq_some {s : Bytes} {url : Url} (h : sampleParseUrl s = some url) :
    ∃ host name, host ≠ [] ∧ host.all sampleHostByte = true ∧
      url = ⟨str "https", [], none, some host, none, 47 :: name, none, none⟩ := by
  obtain ⟨rest, -, h⟩ := Option.bind_eq_some_iff.mp h
  generalize (if rest.head? = some 64 then rest.tail else rest) = rest at h
  unfold sampleHost at h
  simp only at h
  split_ifs at h with hparts
  exact ⟨_, _, hparts.1, hparts.2.1, (Option.some.inj h).symm⟩

theorem originText_https (host path : Bytes) :
    Url.originText ⟨str "https", [], none, some host, none, path, none, none⟩ =
      str "https://" ++ host := by
  have hscheme :
      [str "https", str "http", str "wss", str "ws", str "ftp"].contains (str "https") = true := by
    decide +kernel
  have htext : str "https" ++ str "://" = str "https://" := by decide +kernel
  rw [Url.originText, if_pos hscheme, htext, Url.hostPort]
  show str "https://" ++ (host ++ []) = _
  rw [List.append_nil]

/-- A host is read as it was written, by itself and before a path. -/
theorem sampleParseUrl_host {host : Bytes} (hne : host ≠ [])
    (hhost : host.all sampleHostByte = true)
    {rest name : Bytes} (hrest : rest = [] ∧ name = [] ∨ rest = 47 :: name)
    (hname : name.all isLower = true) :
    sampleParseUrl (str "https://" ++ (host ++ rest)) =
      some ⟨str "https", [], none, some host, none, 47 :: name, none, none⟩ := by
  have hbyte : ∀ b : UInt8, sampleHostByte b = true → b ≠ 64 ∧ b ≠ 47 := by decide +kernel
  have hslash : 47 ∉ host := fun hmem => (hbyte 47 (List.all_eq_true.mp hhost 47 hmem)).2 rfl
  have hhead : (host ++ rest).head? ≠ some 64 := by
    obtain ⟨b, host, rfl⟩ := List.exists_cons_of_ne_nil hne
    intro h
    exact (hbyte b (List.all_eq_true.mp hhost b List.mem_cons_self)).1 (Option.some.inj h)
  have hsplit : (splitOnce 47 (host ++ rest)).getD (host ++ rest, []) = (host, name) := by
    rcases hrest with ⟨rfl, rfl⟩ | rfl
    · have hnone : splitOnce 47 host = none := by
        match h : splitOnce 47 host with
        | none => rfl
        | some (a, b) =>
            obtain ⟨rfl, -⟩ := splitOnce_eq_some_iff.mp h
            exact absurd (List.mem_append_right a List.mem_cons_self) hslash
      rw [List.append_nil, hnone]
      rfl
    · rw [splitOnce_eq_some_iff.mpr ⟨rfl, hslash⟩]
      rfl
  rw [sampleParseUrl, stripPrefix_eq_some.mpr rfl, Option.bind_some, if_neg hhead]
  unfold sampleHost
  rw [hsplit]
  exact if_pos ⟨hne, hhost, hname⟩

theorem sampleParseUrl_standard : UrlStandard sampleParseUrl where
  port s url h port hport := by
    obtain ⟨host, name, -, -, rfl⟩ := sampleParseUrl_eq_some h
    cases hport
  origin s url host h _ hfound := by
    obtain ⟨host, name, hne, hhost, rfl⟩ := sampleParseUrl_eq_some h
    obtain rfl := Option.some.inj hfound
    have hparse := sampleParseUrl_host hne hhost (.inl ⟨rfl, rfl⟩) rfl
    rw [List.append_nil] at hparse
    rw [originText_https]
    exact hparse
  path s url host h _ hfound name hname := by
    obtain ⟨host, _, hne, hhost, rfl⟩ := sampleParseUrl_eq_some h
    obtain rfl := Option.some.inj hfound
    have hparse := sampleParseUrl_host hne hhost (.inr rfl) hname
    rw [originText_https, List.append_assoc]
    exact hparse

/-- The sample node with this parser. -/
def sampleUsable : Crates := { sampleNode with parseUrl := sampleParseUrl }

/-- The provider with an empty user name. -/
def sampleUnclean : Settings := ⟨true, str "https://alice.com", some 1, str "https://@rpc.com"⟩

/-- Settings that are validated, and of which no client is made. -/
theorem unclean_provider :
    sampleUnclean.enabled = true ∧ sampleUnclean.validate sampleUsable = .ok () ∧
    AuthConfig.validate sampleUsable.toCrates ⟨str "alice.com", str "https://alice.com/account",
      relayText, sampleUnclean.optimismRpcUrl⟩ = .error .invalidConfig := by
  decide +kernel

theorem sampleSettings_validate : sampleSettings.validate sampleUsable = .ok () := by decide +kernel

/-- Of the sample settings a client is made. -/
theorem usable_iff_clean_sample :
    ∃ client, Core.client sampleUsable sampleSettings = .ok client := by
  have hrelay : sampleUsable.parseUrl relayText = some relayOrigin := by decide +kernel
  have henabled : sampleSettings.enabled = true := rfl
  obtain ⟨origin, -, -, hclient, -⟩ :=
    usable_iff_clean (K := sampleUsable) sampleParseUrl_standard hrelay henabled sampleSettings_validate
  exact hclient.mpr (by decide +kernel)

end PurpleSky.Node
