import MontyServer.Convert

/-!
# Configuration

`config.rs`, as far as it decides who a caller is and how often it may call.
-/

namespace MontyServer

/-- A fixed-window-free token-bucket rate rule. -/
structure RateRule where
  perMinute : UInt32
  burst : UInt32
  deriving DecidableEq, Repr

/-- Builds a rate rule with burst capacity equal to the per-minute rate. -/
def RateRule.new (perMinute : UInt32) : RateRule where
  perMinute := max perMinute 1
  burst := max perMinute 1

/-- The identity a token stands for. -/
structure Principal where
  name : String
  rate : RateRule
  deriving DecidableEq, Repr

/-- The map from each secret token to its principal. A token stands in it once. -/
abbrev TokenMap := List (String × Principal)

namespace TokenMap

/-- `HashMap::get`. -/
def get (tokens : TokenMap) (token : String) : Option Principal :=
  (tokens.find? fun e => e.1 = token).map Prod.snd

/-- `HashMap::insert`: an earlier entry of the token is replaced. -/
def insert (tokens : TokenMap) (entry : String × Principal) : TokenMap :=
  entry :: tokens.filter fun e => e.1 ≠ entry.1

end TokenMap

/-- How requests are authenticated. -/
inductive Auth
  | Disabled
  | Tokens (tokens : TokenMap)
  deriving DecidableEq, Repr

/-- Errors that prevent the server from starting. -/
inductive ConfigError
  | Int (var : String) (source : Text.ParseIntError)
  | Addr (what : String)
  | Token (entry : String)
  deriving DecidableEq, Repr

/-- An environment variable; a blank one counts as unset. -/
def envStr (var : Option String) : Option String := var.filter fun v => Text.trim v ≠ ""

/-- The entries of `MONTY_API_TOKENS` that the loop of `load_auth` goes through. -/
def tokenEntries (raw : String) : List String :=
  ((Text.split ',' raw).map Text.trim).filter (· ≠ "")

/-- One round of the loop: `token`, `name:token` or `name:token:requests_per_minute`. -/
def tokenEntry (defaultRate : RateRule) (entry : String) :
    Except ConfigError (String × Principal) :=
  match Text.split ':' entry with
  | [token] => .ok (token, ⟨token, defaultRate⟩)
  | [name, token] => .ok (token, ⟨name, defaultRate⟩)
  | [name, token, rpm] =>
    match Text.parseU32 rpm with
    | .ok perMinute => .ok (token, ⟨name, .new perMinute⟩)
    | .error source => .error (.Int "MONTY_API_TOKENS" source)
  | _ => .error (.Token entry)

/-- The loop of `load_auth`. -/
def insertEntries (defaultRate : RateRule) (tokens : TokenMap) :
    List String → Except ConfigError TokenMap
  | [] => .ok tokens
  | entry :: entries => do
    let parsed ← tokenEntry defaultRate entry
    insertEntries defaultRate (tokens.insert parsed) entries

/-- Parses `MONTY_API_TOKENS` into an `Auth` policy. -/
def loadAuth (var : Option String) (defaultRate : RateRule) : Except ConfigError Auth :=
  match envStr var with
  | none => .ok .Disabled
  | some raw => do
    let tokens ← insertEntries defaultRate [] (tokenEntries raw)
    if tokens.isEmpty then .ok .Disabled else .ok (.Tokens tokens)

/-! ## What the map holds -/

/-- The map that the entries make. -/
def tokensOf (entries : List (String × Principal)) : TokenMap := entries.foldl .insert []

/-- The last entry that is written with the token. -/
def lastEntry (entries : List (String × Principal)) (token : String) : Option Principal :=
  (entries.reverse.find? fun e => e.1 = token).map Prod.snd

theorem insertEntries_eq (defaultRate : RateRule) (tokens : TokenMap) (entries : List String) :
    insertEntries defaultRate tokens entries =
      (entries.mapM (tokenEntry defaultRate)).map fun es => es.foldl .insert tokens := by
  induction entries generalizing tokens with
  | nil => rfl
  | cons entry entries ih =>
    rw [insertEntries, List.mapM_cons]
    cases tokenEntry defaultRate entry with
    | error e => rfl
    | ok parsed =>
      show insertEntries defaultRate (tokens.insert parsed) entries = _
      rw [ih]
      cases entries.mapM (tokenEntry defaultRate) <;> rfl

theorem TokenMap.get_insert (tokens : TokenMap) (entry : String × Principal) (token : String) :
    (tokens.insert entry).get token =
      if entry.1 = token then some entry.2 else tokens.get token := by
  rw [get, insert, List.find?_cons]
  by_cases h : entry.1 = token
  · rw [if_pos h, decide_eq_true h, Option.map_some]
  · have hboth : (fun e : String × Principal =>
        decide (decide (e.1 ≠ entry.1) = true ∧ decide (e.1 = token) = true)) =
          fun e => decide (e.1 = token) := by
      funext e
      have hne : e.1 = token → e.1 ≠ entry.1 := fun he heq => h (heq.symm.trans he)
      simpa using hne
    rw [if_neg h, decide_eq_false h, List.find?_filter, get, hboth]

/-- **The last entry of a token counts.** -/
theorem get_tokensOf (entries : List (String × Principal)) (token : String) :
    (tokensOf entries).get token = lastEntry entries token := by
  induction entries using List.reverseRecOn with
  | nil => rfl
  | append_singleton entries entry ih =>
    rw [tokensOf, List.foldl_append, lastEntry, List.reverse_append]
    show (TokenMap.insert (tokensOf entries) entry).get token = _
    rw [TokenMap.get_insert, ih, List.reverse_singleton, List.singleton_append, List.find?_cons]
    by_cases h : entry.1 = token
    · rw [if_pos h, decide_eq_true h, Option.map_some]
    · rw [if_neg h, decide_eq_false h, lastEntry]

theorem isEmpty_tokensOf (entries : List (String × Principal)) :
    (tokensOf entries).isEmpty = entries.isEmpty := by
  cases entries using List.reverseRecOn with
  | nil => rfl
  | append_singleton entries entry =>
    rw [tokensOf, List.foldl_append]
    simp [TokenMap.insert]

/-- **What `load_auth` makes of a variable that is not blank.** -/
theorem loadAuth_eq {raw : String} (h : Text.trim raw ≠ "") (defaultRate : RateRule) :
    loadAuth (some raw) defaultRate =
      ((tokenEntries raw).mapM (tokenEntry defaultRate)).map fun entries =>
        if entries.isEmpty then .Disabled else .Tokens (tokensOf entries) := by
  have hset : envStr (some raw) = some raw := by
    rw [envStr, Option.filter_some, if_pos (decide_eq_true h)]
  rw [loadAuth, hset]
  show (insertEntries defaultRate [] (tokenEntries raw) >>= _) = _
  rw [insertEntries_eq]
  cases (tokenEntries raw).mapM (tokenEntry defaultRate) with
  | error e => rfl
  | ok entries =>
    show (if (tokensOf entries).isEmpty = true then _ else _) = _
    rw [isEmpty_tokensOf]
    cases entries <;> rfl

end MontyServer
