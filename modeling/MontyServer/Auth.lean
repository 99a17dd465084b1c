import MontyServer.Config
import MontyServer.Error

/-!
# Authentication

`auth.rs`: who a request comes from. The name of the caller is what its sessions belong to and what
its rate is counted under. The configuration and the header are taken apart by different parsers;
an entry works exactly if they agree on its token (`honoured_iff`).
-/

namespace MontyServer

/-- What the middleware reads of a request: the headers, by name in lower case, and the address of
the peer. A value is any sequence of bytes. -/
structure HttpRequest where
  headers : List (String × List UInt8)
  peer : String

/-- `HeaderMap::get`: the first value. -/
def HttpRequest.header (request : HttpRequest) (name : String) : Option (List UInt8) :=
  request.headers.lookup name

/-- A byte that `HeaderValue::to_str` accepts: visible ASCII, a space or a tab. -/
def visibleByte (b : UInt8) : Bool := (32 ≤ b.toNat && b.toNat < 127) || b.toNat = 9

/-- `HeaderValue::to_str`. -/
def headerToStr (bytes : List UInt8) : Option String :=
  if bytes.all visibleByte then some (String.ofList (bytes.map Char.ofUInt8)) else none

/-- Extracts the bearer token from the `Authorization` header, if present and well-formed. -/
def bearerToken (request : HttpRequest) : Option String := do
  let header ← request.header "authorization"
  let value ← headerToStr header
  let (scheme, token) ← Text.splitOnce ' ' value
  if Text.eqIgnoreAsciiCase scheme "bearer" then some (Text.trim token) else none

/-- Determines the client IP, preferring the first hop of `X-Forwarded-For` over the direct socket
address. -/
def clientIp (request : HttpRequest) : String :=
  ((((request.header "x-forwarded-for").bind headerToStr).bind fun v =>
    (Text.split ',' v).head?).map Text.trim |>.filter (· ≠ "")).getD request.peer

/-- The resolved identity behind a request. -/
structure Caller where
  id : String
  rate : RateRule
  deriving DecidableEq, Repr

/-- The caller that `authenticate` resolves a request to. -/
def authenticate (auth : Auth) (defaultRate : RateRule) (request : HttpRequest) :
    ApiResult Caller :=
  match auth with
  | .Disabled => .ok ⟨"ip:" ++ clientIp request, defaultRate⟩
  | .Tokens tokens =>
    match bearerToken request with
    | none => .error .Unauthorized
    | some token =>
      match tokens.get token with
      | none => .error .Unauthorized
      | some principal => .ok ⟨principal.name, principal.rate⟩

/-! ## Bearing a token -/

/-- The bytes of a text on the wire. -/
def utf8 (cs : List Char) : List UInt8 := cs.flatMap String.utf8EncodeChar

/-- The request has the header `Authorization: Bearer T`. -/
def HttpRequest.Bears (request : HttpRequest) (token : String) : Prop :=
  request.header "authorization" = some (utf8 ("Bearer ".toList ++ token.toList))

/-- A character that a header can carry. -/
def visible (c : Char) : Bool := (32 ≤ c.toNat && c.toNat < 127) || c.toNat = 9

theorem utf8EncodeChar_of_visible {c : Char} (h : visible c = true) :
    String.utf8EncodeChar c = [c.toNat.toUInt8] := by
  have hle : c.val.toNat ≤ 0x7f := by
    have hval : c.val.toNat = c.toNat := rfl
    simp [visible] at h
    omega
  unfold String.utf8EncodeChar
  simp only [hle, if_true]
  rfl

/-- A character is visible exactly if all its bytes are. -/
theorem all_visibleByte_utf8EncodeChar (c : Char) :
    (String.utf8EncodeChar c).all visibleByte = visible c := by
  have hval : c.val.toNat = c.toNat := rfl
  cases h : visible c with
  | true =>
    simp [visible] at h
    rw [utf8EncodeChar_of_visible (by simpa [visible] using h)]
    simp [visibleByte]
    omega
  | false =>
    simp only [visible, Bool.or_eq_false_iff, Bool.and_eq_false_iff, decide_eq_false_iff_not] at h
    unfold String.utf8EncodeChar
    simp only [hval]
    -- one, two, three or four bytes
    split_ifs with h₁ h₂ h₃ <;> simp [visibleByte] <;> omega

theorem all_visibleByte_utf8 (cs : List Char) : (utf8 cs).all visibleByte = cs.all visible := by
  rw [utf8, List.all_flatMap]
  exact congrArg cs.all (funext all_visibleByte_utf8EncodeChar)

theorem map_ofUInt8_utf8 {cs : List Char} (h : cs.all visible = true) :
    (utf8 cs).map Char.ofUInt8 = cs := by
  induction cs with
  | nil => rfl
  | cons c cs ih =>
    rw [List.all_cons, Bool.and_eq_true] at h
    have hsmall : c.toNat < 256 := by
      have := h.1
      simp [visible] at this
      omega
    have hchar : Char.ofUInt8 c.toNat.toUInt8 = c := by
      apply Char.ext
      apply UInt32.toNat_inj.mp
      show (c.toNat.toUInt8).toNat = c.toNat
      exact UInt8.toNat_ofNat_of_lt' hsmall
    show (String.utf8EncodeChar c ++ utf8 cs).map Char.ofUInt8 = c :: cs
    rw [utf8EncodeChar_of_visible h.1, List.map_append, ih h.2, List.map_singleton, hchar]
    rfl

/-- **A text comes through a header exactly if all its characters are visible.** -/
theorem headerToStr_utf8 (cs : List Char) :
    headerToStr (utf8 cs) = if cs.all visible then some (String.ofList cs) else none := by
  rw [headerToStr, all_visibleByte_utf8]
  by_cases h : cs.all visible = true
  · rw [if_pos h, if_pos h, map_ofUInt8_utf8 h]
  · rw [if_neg h, if_neg h]

/-- **What `bearer_token` finds in a request that bears a token.** -/
theorem bearerToken_of_bears {request : HttpRequest} {token : String} (h : request.Bears token) :
    bearerToken request = if token.toList.all visible then some (Text.trim token) else none := by
  have hsplit : Text.splitOnce ' ' (String.ofList ("Bearer ".toList ++ token.toList)) =
      some ("Bearer", token) := by
    have hword : ∀ d ∈ "Bearer".toList, d ≠ ' ' := by simp
    have hone : Text.splitOnce ' ' (String.ofList ("Bearer".toList ++ ' ' :: token.toList)) = _ :=
      Text.splitOnce_append hword
    rw [String.ofList_toList, String.ofList_toList] at hone
    exact hone
  have hprefix : ("Bearer ".toList ++ token.toList).all visible = token.toList.all visible := by
    rw [List.all_append]
    rfl
  rw [bearerToken, h, Option.bind_eq_bind, Option.bind_some, headerToStr_utf8, hprefix]
  by_cases hall : token.toList.all visible = true
  · rw [if_pos hall, if_pos hall]
    simp only [Option.bind_eq_bind, Option.bind_some, hsplit]
    rfl
  · rw [if_neg hall, if_neg hall]
    rfl

theorem trim_bearerToken {request : HttpRequest} {token : String}
    (h : bearerToken request = some token) : Text.trim token = token := by
  unfold bearerToken at h
  simp only [Option.bind_eq_bind, Option.bind_eq_some_iff] at h
  obtain ⟨header, -, value, -, parts, -, htoken⟩ := h
  split at htoken
  · cases htoken
    exact Text.trim_trim _
  · cases htoken

/-- **Who is accepted**: whoever bears a token of the map. -/
theorem authenticate_ok_iff {tokens : TokenMap} {defaultRate : RateRule} {request : HttpRequest}
    {caller : Caller} :
    authenticate (.Tokens tokens) defaultRate request = .ok caller ↔
      ∃ token principal, bearerToken request = some token ∧ tokens.get token = some principal ∧
        caller = ⟨principal.name, principal.rate⟩ := by
  unfold authenticate
  constructor
  · intro h
    simp only at h
    split at h
    · cases h
    · next token htoken =>
      split at h
      · cases h
      · next principal hprincipal =>
        cases h
        exact ⟨token, principal, htoken, hprincipal, rfl⟩
  · rintro ⟨token, principal, htoken, hprincipal, rfl⟩
    simp only [htoken, hprincipal]

/-! ## The entries of the configuration -/

/-- What is promised of a value of `MONTY_API_TOKENS`: it is an error, or it turns authentication
on, every entry works as it says, and nothing else does. -/
def Honoured (raw : String) (defaultRate : RateRule) : Prop :=
  (∃ e, loadAuth (some raw) defaultRate = .error e) ∨
  ∃ tokens, loadAuth (some raw) defaultRate = .ok (.Tokens tokens) ∧
    (∀ text ∈ tokenEntries raw, ∀ entry, tokenEntry defaultRate text = .ok entry →
      ∀ request : HttpRequest, request.Bears (Text.trim entry.1) →
        authenticate (.Tokens tokens) defaultRate request =
          .ok ⟨entry.2.name, entry.2.rate⟩) ∧
    ∀ request caller, authenticate (.Tokens tokens) defaultRate request = .ok caller →
      ∃ credential, bearerToken request = some credential ∧ credential ≠ "" ∧
        ∃ text ∈ tokenEntries raw, ∃ entry, tokenEntry defaultRate text = .ok entry ∧
          credential = Text.trim entry.1

/-- An entry that works: its token without surrounding whitespace can be sent, and the last entry
written with exactly that token is this one, or as good as this one. -/
structure Usable (entries : List (String × Principal)) (entry : String × Principal) : Prop where
  nonempty : Text.trim entry.1 ≠ ""
  visible : (Text.trim entry.1).toList.all visible = true
  last : lastEntry entries (Text.trim entry.1) = some entry.2

/-- If every entry is well formed, there is one, and all of them work. -/
def AllUsable (raw : String) (defaultRate : RateRule) : Prop :=
  ∀ entries, (tokenEntries raw).mapM (tokenEntry defaultRate) = .ok entries →
    entries ≠ [] ∧ ∀ entry ∈ entries, Usable entries entry

theorem mem_of_lastEntry {entries : List (String × Principal)} {token : String}
    {principal : Principal} (h : lastEntry entries token = some principal) :
    (token, principal) ∈ entries := by
  obtain ⟨entry, hfind, rfl⟩ := Option.map_eq_some_iff.mp h
  have htoken : entry.1 = token := by simpa using List.find?_some hfind
  have hmem := List.mem_reverse.mp (List.mem_of_find?_eq_some hfind)
  rw [← htoken]
  exact hmem

theorem honoured_of_allUsable {raw : String} {defaultRate : RateRule} (hraw : Text.trim raw ≠ "")
    (h : AllUsable raw defaultRate) : Honoured raw defaultRate := by
  have hload := loadAuth_eq hraw defaultRate
  cases hentries : (tokenEntries raw).mapM (tokenEntry defaultRate) with
  | error e => exact .inl ⟨e, by rw [hload, hentries]; rfl⟩
  | ok entries =>
    obtain ⟨hne, husable⟩ := h entries hentries
    have hempty : ¬ entries.isEmpty = true := by simpa using hne
    have hall := Rounds.mapM_eq_ok_iff.mp hentries
    have hmap : loadAuth (some raw) defaultRate = .ok (.Tokens (tokensOf entries)) := by
      rw [hload, hentries]
      show Except.ok (if entries.isEmpty = true then _ else _) = _
      rw [if_neg hempty]
    refine .inr ⟨tokensOf entries, hmap, ?_, ?_⟩
    · intro text htext entry hentry request hbears
      obtain ⟨entry', hmem, hentry'⟩ := Rounds.exists_of_mem_left hall htext
      cases hentry.symm.trans hentry'
      obtain ⟨-, hvisible, hlast⟩ := husable entry hmem
      refine authenticate_ok_iff.mpr ⟨Text.trim entry.1, entry.2, ?_, ?_, rfl⟩
      · rw [bearerToken_of_bears hbears, if_pos hvisible, Text.trim_trim]
      · rw [get_tokensOf, hlast]
    · intro request caller haccepted
      obtain ⟨token, principal, htoken, hget, -⟩ := authenticate_ok_iff.mp haccepted
      rw [get_tokensOf] at hget
      have hmem := mem_of_lastEntry hget
      obtain ⟨text, htext, hentry⟩ := Rounds.exists_of_mem_right hall hmem
      have htrim : Text.trim token = token := trim_bearerToken htoken
      have hnonempty := (husable _ hmem).nonempty
      rw [htrim] at hnonempty
      exact ⟨token, htoken, hnonempty, text, htext, _, hentry, htrim.symm⟩

theorem allUsable_of_honoured {raw : String} {defaultRate : RateRule} (hraw : Text.trim raw ≠ "")
    (h : Honoured raw defaultRate) : AllUsable raw defaultRate := by
  intro entries hentries
  have hload := loadAuth_eq hraw defaultRate
  rw [hentries] at hload
  rcases h with ⟨e, he⟩ | ⟨tokens, hmap, hworks, honly⟩
  · cases hload.symm.trans he
  · have hauth := hload.symm.trans hmap
    have hne : entries ≠ [] := by
      rintro rfl
      cases hauth
    have hempty : ¬ entries.isEmpty = true := by simpa using hne
    have htokens : tokens = tokensOf entries := by
      have : Except.ok (if entries.isEmpty = true then Auth.Disabled else
          .Tokens (tokensOf entries)) = (.ok (.Tokens tokens) : Except ConfigError Auth) := hauth
      rw [if_neg hempty] at this
      cases this
      rfl
    refine ⟨hne, ?_⟩
    intro entry hmem
    obtain ⟨text, htext, hentry⟩ :=
      Rounds.exists_of_mem_right (Rounds.mapM_eq_ok_iff.mp hentries) hmem
    let request : HttpRequest :=
      ⟨[("authorization", utf8 ("Bearer ".toList ++ (Text.trim entry.1).toList))], ""⟩
    have hbears : request.Bears (Text.trim entry.1) := rfl
    have haccepted := hworks text htext entry hentry request hbears
    obtain ⟨token, principal, htoken, hget, hcaller⟩ := authenticate_ok_iff.mp haccepted
    obtain ⟨credential, hcredential, hnonempty, -⟩ := honly request _ haccepted
    have hvisible : (Text.trim entry.1).toList.all visible = true := by
      by_contra hno
      rw [bearerToken_of_bears hbears, if_neg hno] at htoken
      cases htoken
    rw [bearerToken_of_bears hbears, if_pos hvisible, Text.trim_trim] at htoken hcredential
    cases htoken
    cases hcredential
    rw [htokens, get_tokensOf] at hget
    have hprincipal : principal = entry.2 := by
      obtain ⟨name, rate⟩ := principal
      cases hcaller
      rfl
    exact ⟨hnonempty, hvisible, hprincipal ▸ hget⟩

/-- **The configuration is honoured exactly if all its entries work.** -/
theorem honoured_iff {raw : String} (hraw : Text.trim raw ≠ "") (defaultRate : RateRule) :
    Honoured raw defaultRate ↔ AllUsable raw defaultRate :=
  ⟨allUsable_of_honoured hraw, honoured_of_allUsable hraw⟩

/-- A rate of its own for one token. -/
theorem honoured_iff_named : Honoured "alice:t1:60" (.new 120) := by
  have hraw : Text.trim "alice:t1:60" ≠ "" := by decide
  have hentries : (tokenEntries "alice:t1:60").mapM (tokenEntry (.new 120)) =
      .ok [("t1", ⟨"alice", .new 60⟩)] := by decide
  apply (honoured_iff hraw (.new 120)).mpr
  intro entries h
  cases hentries.symm.trans h
  refine ⟨by decide, ?_⟩
  intro entry hentry
  rw [List.mem_singleton.mp hentry]
  exact ⟨by decide, by decide, by decide⟩

/-- The space after the colon stays in the configured token, and no credential has one. -/
theorem not_honoured_space :
    ¬ ∀ (raw : String) (defaultRate : RateRule), Text.trim raw ≠ "" →
      Honoured raw defaultRate := by
  intro h
  have hload : loadAuth (some "alice: s3cret") (.new 120) =
      .ok (.Tokens [(" s3cret", ⟨"alice", .new 120⟩)]) := by decide
  have hentry : tokenEntry (.new 120) "alice: s3cret" = .ok (" s3cret", ⟨"alice", .new 120⟩) := by
    decide
  let request : HttpRequest := ⟨[("authorization", utf8 "Bearer s3cret".toList)], "10.0.0.1"⟩
  have hrefused : authenticate (.Tokens [(" s3cret", ⟨"alice", .new 120⟩)]) (.new 120) request =
      .error .Unauthorized := by decide
  rcases h "alice: s3cret" (.new 120) (by decide) with ⟨e, he⟩ | ⟨tokens, hmap, hworks, -⟩
  · cases hload.symm.trans he
  · cases hload.symm.trans hmap
    have htrim : Text.trim " s3cret" = "s3cret" := by decide
    have hbears : request.Bears (Text.trim " s3cret") := by
      rw [htrim]
      rfl
    have haccepted := hworks "alice: s3cret" (by decide) _ hentry request hbears
    cases hrefused.symm.trans haccepted

end MontyServer
