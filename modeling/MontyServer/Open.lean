import MontyServer.Admission
import MontyServer.Lib.Drain
import MontyServer.Refills

/-!
# A server without tokens

With no tokens configured a caller is an address, and the address is what `X-Forwarded-For` says,
whoever sends it. So the ids one peer can come by are its own and every text that a header can carry
as a first hop (`open_callers_iff`). What isolates callers from each other and limits each of them
then binds nobody who writes the header: any peer can come as the owner of any session
(`open_sessions_taken`), and get in as many requests as it likes at one time (`open_rate_evaded`).
An open server has to stand behind a proxy that writes the header itself.
-/

namespace MontyServer

/-! ## The first hop -/

/-- What can be the first hop of a header: the texts that `client_ip` can find there. -/
structure Hop (ip : String) : Prop where
  nonempty : ip ≠ ""
  trimmed : Text.trim ip = ip
  alone : ',' ∉ ip.toList
  visible : ip.toList.all visible = true

/-- A request that says it is forwarded for somebody. -/
def forwarded (ip peer : String) : HttpRequest where
  headers := [("x-forwarded-for", utf8 ip.toList)]
  peer := peer

theorem not_mem_takeWhile_ne (c : Char) (cs : List Char) : c ∉ cs.takeWhile (· ≠ c) := by
  intro hmem
  exact of_decide_eq_true (List.mem_takeWhile_imp (p := (· ≠ c)) hmem) rfl

/-- The first part of a text that is split at a character. -/
theorem head?_split (c : Char) (s : String) :
    (Text.split c s).head? = some (String.ofList (s.toList.takeWhile (· ≠ c))) := by
  rw [Text.split, List.head?_map]
  generalize s.toList = cs
  have hsplit : cs = cs.takeWhile (· ≠ c) ++ cs.dropWhile (· ≠ c) :=
    List.takeWhile_append_dropWhile.symm
  have hbefore := not_mem_takeWhile_ne c cs
  cases hrest : cs.dropWhile (· ≠ c) with
  | nil =>
    rw [hrest, List.append_nil] at hsplit
    rw [← hsplit] at hbefore ⊢
    rw [List.splitOn_eq_singleton hbefore]
    rfl
  | cons d rest =>
    have hd : d = c := by
      have hhead := List.head?_dropWhile_not (· ≠ c) cs
      rw [hrest] at hhead
      simpa using hhead
    subst hd
    rw [hrest] at hsplit
    generalize cs.takeWhile (· ≠ d) = before at hsplit hbefore
    rw [hsplit, List.splitOn_append_cons_self_of_not_mem hbefore]
    rfl

/-- What a header says of its first hop is taken as it is. -/
theorem clientIp_forwarded {ip : String} (hop : Hop ip) (peer : String) :
    clientIp (forwarded ip peer) = ip := by
  have hheader : ((forwarded ip peer).header "x-forwarded-for").bind headerToStr = some ip := by
    show headerToStr (utf8 ip.toList) = some ip
    rw [headerToStr_utf8, if_pos hop.visible, String.ofList_toList]
  have hfirst : (Text.split ',' ip).head? = some ip := by
    have hall : ip.toList.takeWhile (· ≠ ',') = ip.toList := by
      apply List.takeWhile_eq_self_iff.mpr
      intro c hc
      apply decide_eq_true
      rintro rfl
      exact hop.alone hc
    rw [head?_split, hall, String.ofList_toList]
  rw [clientIp, hheader, Option.bind_some, hfirst, Option.map_some, hop.trimmed,
    Option.filter_some, if_pos (decide_eq_true hop.nonempty), Option.getD_some]

theorem mem_of_mem_trimList {c : Char} {cs : List Char} (h : c ∈ Text.trimList cs) : c ∈ cs :=
  (List.dropWhile_sublist _).subset ((List.rdropWhile_prefix _ _).subset h)

/-- A header that is text has characters that are visible. -/
theorem visible_of_headerToStr {bytes : List UInt8} {v : String} (h : headerToStr bytes = some v) :
    v.toList.all visible = true := by
  obtain ⟨hbytes, hv⟩ := Option.ite_none_right_eq_some.mp h
  cases hv
  rw [String.toList_ofList, List.all_map]
  apply List.all_eq_true.mpr
  intro b hb
  have hvisible := List.all_eq_true.mp hbytes b hb
  have htoNat : (Char.ofUInt8 b).toNat = b.toNat := rfl
  simpa [visible, visibleByte, htoNat] using hvisible

/-- Otherwise the address is the peer's. -/
theorem clientIp_cases (http : HttpRequest) : clientIp http = http.peer ∨ Hop (clientIp http) := by
  rw [clientIp]
  cases hheader : (http.header "x-forwarded-for").bind headerToStr with
  | none => exact .inl rfl
  | some v =>
    rw [Option.bind_some, head?_split, Option.map_some]
    by_cases hempty : Text.trim (String.ofList (v.toList.takeWhile (· ≠ ','))) = ""
    · left
      rw [Option.filter_some, if_neg (by simpa using hempty)]
      rfl
    · right
      rw [Option.filter_some, if_pos (by simpa using hempty), Option.getD_some]
      have hmem : ∀ c ∈ (Text.trim (String.ofList (v.toList.takeWhile (· ≠ ',')))).toList,
          c ∈ v.toList.takeWhile (· ≠ ',') := by
        intro c hc
        rw [Text.trim, String.toList_ofList, String.toList_ofList] at hc
        exact mem_of_mem_trimList hc
      refine ⟨hempty, Text.trim_trim _, ?_, ?_⟩
      · intro hcomma
        exact not_mem_takeWhile_ne ',' _ (hmem _ hcomma)
      · obtain ⟨bytes, -, hbytes⟩ := Option.bind_eq_some_iff.mp hheader
        apply List.all_eq_true.mpr
        intro c hc
        have hthere := (List.takeWhile_prefix _).subset (hmem c hc)
        exact List.all_eq_true.mp (visible_of_headerToStr hbytes) c hthere

/-! ## The peers' own addresses -/

namespace Service

variable [Crates] {config : ResolvedConfig} {s s' : Service}

/-- Every request behind the middleware is of an address that a header can name. -/
def AllHops (s : Service) : Prop := ∀ id ∈ s.callers, ∃ ip, id = "ip:" ++ ip ∧ Hop ip

/-- The event is no request of a peer with an address that no header can name. -/
def Event.FromHop : Event → Prop
  | .request incoming _ => Hop incoming.http.peer
  | _ => True

theorem AllHops.step (hops : s.AllHops) (hopen : config.auth = .Disabled) {e : Event}
    (hpeer : e.FromHop) (h : s.step config e = some s') : s'.AllHops := by
  cases step_cases h with
  | answered _ _ => exact hops
  | @arrived incoming created caller call _ hletIn _ =>
    intro id hid
    rw [callers, List.map_append, List.mem_append] at hid
    rcases hid with hid | hid
    · exact hops id hid
    · have hcaller := (letIn_ok hletIn).1
      rw [hopen] at hcaller
      cases hcaller
      refine ⟨clientIp incoming.http, List.mem_singleton.mp hid, ?_⟩
      rcases clientIp_cases incoming.http with hself | hop
      · rw [hself]
        exact hpeer
      · exact hop
  | prune _ => exact hops
  | inside ha hserver =>
    rw [AllHops, callers, callers_inside ha hserver]
    exact hops

theorem allHops_of_exec (hopen : config.auth = .Disabled) {events : List Event}
    (hpeers : ∀ e ∈ events, Event.FromHop e)
    (hrun : Run.exec (step config) (.new config) events = some s) : s.AllHops := by
  apply Run.exec_invariant_of_forall (fun _ _ _ hs he hstep => AllHops.step hs hopen he hstep) _
    hpeers hrun
  intro id hid
  cases hid

/-! ## As many as it likes -/

omit [Crates] in
/-- The limiter has a bucket for these keys only. -/
def Buckets (keys : List String) (s : Service) : Prop :=
  ∀ key, s.rateLimiter.buckets key ≠ none → key ∈ keys

theorem Buckets.step {keys : List String} (hkeys : s.Buckets keys) {e : Event}
    (h : s.step config e = some s') : ∃ keys', s'.Buckets keys' := by
  have hlimiter : s'.rateLimiter = (s.op config e).elim s.rateLimiter s.rateLimiter.step :=
    (step_cases h).rateLimiter
  cases hop : s.op config e with
  | none =>
    refine ⟨keys, ?_⟩
    rw [Buckets, hlimiter, hop]
    exact hkeys
  | some op =>
    cases op with
    | pruneIdle read now =>
      refine ⟨keys, ?_⟩
      intro key hkey
      rw [hlimiter, hop] at hkey
      apply hkeys key
      intro hnone
      apply hkey
      show (s.rateLimiter.buckets key).filter _ = none
      rw [hnone]
      rfl
    | check id rule created now =>
      refine ⟨id :: keys, ?_⟩
      intro key hkey
      by_cases hid : key = id
      · rw [hid]
        exact List.mem_cons_self
      · apply List.mem_cons_of_mem
        apply hkeys key
        rw [hlimiter, hop] at hkey
        rw [← RateLimiter.check_of_ne hid s.rateLimiter rule created now]
        exact hkey

/-- **Run lemma**: the limiter has finitely many buckets. -/
theorem Reachable.buckets (h : Service.Reachable config s) : ∃ keys, s.Buckets keys :=
  Run.Reachable.invariant (I := fun s : Service => ∃ keys, s.Buckets keys)
    (fun _ _ _ ⟨_, hkeys⟩ hstep => hkeys.step hstep) ⟨[], fun _ hkey => (hkey rfl).elim⟩ h

omit [Crates] in
/-- An address of so many letters. -/
def letters (n : Nat) : String := String.ofList (List.replicate (n + 1) 'a')

omit [Crates] in
theorem hop_letters (n : Nat) : Hop (letters n) := by
  have htoList : (letters n).toList = List.replicate (n + 1) 'a' := String.toList_ofList
  refine ⟨?_, ?_, ?_, ?_⟩
  · intro hempty
    rw [hempty] at htoList
    cases htoList
  · have hdrop : (List.replicate (n + 1) 'a').dropWhile Text.isWhitespace =
        List.replicate (n + 1) 'a' := rfl
    have hrdrop : (List.replicate (n + 1) 'a').rdropWhile Text.isWhitespace =
        List.replicate (n + 1) 'a' := by
      apply List.rdropWhile_eq_self_iff.mpr
      intro hne
      rw [List.getLast_replicate]
      decide
    rw [Text.trim, htoList, Text.trimList, hdrop, hrdrop]
    rfl
  · rw [htoList]
    intro hcomma
    cases List.eq_of_mem_replicate hcomma
  · rw [htoList]
    apply List.all_eq_true.mpr
    intro c hc
    rw [List.eq_of_mem_replicate hc]
    decide

omit [Crates] in
/-- No key is as long as the addresses from some length on. -/
theorem exists_fresh_from (keys : List String) : ∃ n, ∀ m ≥ n, "ip:" ++ letters m ∉ keys := by
  induction keys with
  | nil => exact ⟨0, fun _ _ => List.not_mem_nil⟩
  | cons key keys ih =>
    obtain ⟨n, hn⟩ := ih
    refine ⟨max n key.length, ?_⟩
    intro m hm hmem
    rcases List.mem_cons.mp hmem with heq | hmem
    · have hletters : (letters m).length = m + 1 := by
        rw [letters, String.length_ofList, List.length_replicate]
      have hprefix : "ip:".length = 3 := rfl
      have hlength := congrArg String.length heq
      rw [String.length_append, hletters, hprefix] at hlength
      have hlong := Nat.le_trans (Nat.le_max_right n key.length) hm
      omega
    · exact hn m (Nat.le_trans (Nat.le_max_left n key.length) hm) hmem

omit [Crates] in
/-- A key without a bucket gets a full one. -/
theorem check_fresh {l : RateLimiter} {key : String} (h : l.buckets key = none) (n : UInt32)
    (now : Instant) : (l.check key (.new n) now now).2 = .ok () := by
  have hfull := RateRule.one_le_capacity n
  have htokens : (1 : Rat) ≤ Bucket.refilled ⟨(RateRule.new n).capacity, now⟩ (.new n) now := by
    rw [Bucket.refilled, Nat.sub_self]
    apply le_min _ hfull
    simpa [Duration.asSecsF64] using hfull
  rw [RateLimiter.check, h, Option.getD_none]
  simp only [htokens, if_true]

/-- One more request of the peer gets in. -/
theorem exists_let_in (hopen : config.auth = .Disabled) (hproper : config.defaultRate.Proper)
    (h : Service.Reachable config s) (peer : String) (call : Call) :
    ∃ incoming s', incoming.http.peer = peer ∧
      s.step config (.request incoming s.now) = some s' ∧ s'.now = s.now ∧
      s'.server.requests.length = s.server.requests.length + 1 := by
  obtain ⟨n, hrate⟩ := hproper
  obtain ⟨keys, hkeys⟩ := h.buckets
  obtain ⟨m, hfresh⟩ := exists_fresh_from keys
  have hnone : s.rateLimiter.buckets ("ip:" ++ letters m) = none := by
    by_contra hsome
    exact hfresh m (Nat.le_refl m) (hkeys _ hsome)
  have hletIn : s.letIn config ⟨forwarded (letters m) peer, some call⟩ s.now =
      .ok ⟨"ip:" ++ letters m, config.defaultRate⟩ := by
    rw [letIn, layers_eq, hopen, authenticate, clientIp_forwarded (hop_letters m)]
    dsimp only
    rw [hrate, check_fresh hnone]
  have htrans := Trans.arrived (Nat.le_refl s.now) hletIn rfl
  refine ⟨_, _, rfl, htrans.step_eq, rfl, ?_⟩
  exact List.length_append

end Service

/-- **Who a peer can be on an open server**: itself, and whoever a header can name as a first hop: a
text that is not empty, of characters that are visible, without a comma and without white space
around it. It is charged at the default rate as each of them. -/
theorem open_callers_iff (defaultRate : RateRule) (peer : String) (caller : Caller) :
    (∃ http : HttpRequest, http.peer = peer ∧
        authenticate .Disabled defaultRate http = .ok caller) ↔
      caller.rate = defaultRate ∧ ∃ ip, caller.id = "ip:" ++ ip ∧ (ip = peer ∨ Hop ip) := by
  constructor
  · rintro ⟨http, rfl, hcaller⟩
    cases hcaller
    exact ⟨rfl, clientIp http, rfl, clientIp_cases http⟩
  · rintro ⟨hrate, ip, hid, hip⟩
    have hcaller : caller = ⟨"ip:" ++ ip, defaultRate⟩ := by
      rw [← hid, ← hrate]
    rw [hcaller]
    rcases hip with rfl | hop
    · exact ⟨⟨[], ip⟩, rfl, rfl⟩
    · refine ⟨forwarded ip peer, rfl, ?_⟩
      rw [authenticate, clientIp_forwarded hop]

/-- **Anybody can take any session of an open server.** In every state of every run in which the
peers' own addresses are ones a header can name, of every session there has ever been: every peer,
whoever it is, can send a request that authenticates as the owner of the session. -/
theorem open_sessions_taken [Crates] {config : ResolvedConfig} (hopen : config.auth = .Disabled)
    {events : List Service.Event} (hpeers : ∀ e ∈ events, Service.Event.FromHop e) {s : Service}
    (hrun : Run.exec (Service.step config) (.new config) events = some s) {id : Uuid}
    {e : SessionEntry} (he : s.server.entry id = some e) (peer : String) :
    ∃ http : HttpRequest, http.peer = peer ∧
      authenticate config.auth config.defaultRate http =
        .ok ⟨e.principal, config.defaultRate⟩ := by
  have hreachable : Service.Reachable config s := ⟨events, hrun⟩
  have wf := hreachable.server.wf
  -- the owner is the caller of the request that stored the latest step
  obtain ⟨link, rest, htrail, -⟩ := (wf.head id).2 e he
  have hlink : link ∈ s.server.app.trail id := by
    rw [htrail]
    exact List.mem_cons_self
  obtain ⟨r, hr, -, e', he', hprincipal⟩ := wf.credited.request id link hlink
  cases he.symm.trans he'
  have hcaller := Service.mem_callers (List.mem_of_getElem? hr)
  obtain ⟨ip, hid, hop⟩ := Service.allHops_of_exec hopen hpeers hrun _ hcaller
  refine ⟨forwarded ip peer, rfl, ?_⟩
  rw [hopen, authenticate, clientIp_forwarded hop, hprincipal, hid]

namespace Sample

/-- Request 0, just arrived, inserts session 7. -/
def inserting : List Action :=
  [.move 0 .advance] ++ executed 0 ++ [.move 0 .advance, .move 0 (.insert 7)]

/-- A client of a server without tokens creates session 7. -/
def unnamed : List Service.Event :=
  .request ⟨⟨[], "10.0.0.1"⟩,
    some (.create { source := { code := some "try: x\nexcept NameError: y" } })⟩ 0 ::
  inserting.map .inside

theorem unnamed_peers : ∀ e ∈ unnamed, Service.Event.FromHop e := by
  intro e he
  rcases List.mem_cons.mp he with rfl | he
  · exact ⟨by decide, by decide +kernel, by decide, by decide⟩
  · obtain ⟨a, -, rfl⟩ := List.mem_map.mp he
    trivial

end Sample

/-- A stranger can come as the owner of session 7. -/
theorem open_sessions_taken_unnamed :
    ∃ (_ : Crates) (config : ResolvedConfig) (s : Service) (e : SessionEntry),
      ResolvedConfig.fromEnv (Sample.environment []) = .ok config ∧
      Run.exec (Service.step config) (.new config) Sample.unnamed = some s ∧
      s.server.entry 7 = some e ∧ e.principal = "ip:10.0.0.1" ∧
      ∃ http : HttpRequest, http.peer = "10.6.6.6" ∧
        authenticate config.auth config.defaultRate http =
          .ok ⟨e.principal, config.defaultRate⟩ := by
  let _ := Sample.crates
  obtain ⟨config, hconfig, hopen⟩ : ∃ config,
      ResolvedConfig.fromEnv (Sample.environment []) = .ok config ∧ config.auth = .Disabled :=
    ⟨_, rfl, rfl⟩
  have hgoes : (ResolvedConfig.fromEnv (Sample.environment [])).toOption.any (fun c =>
      (Run.exec (Service.step c) (.new c) Sample.unnamed).any fun s =>
        (s.server.entry 7).any fun e => e.principal = "ip:10.0.0.1") = true := by
    decide +kernel
  rw [hconfig] at hgoes
  obtain ⟨_, hc, hgoes⟩ := (Option.any_eq_true _ _).mp hgoes
  cases hc
  obtain ⟨s, hrun, hgoes⟩ := (Option.any_eq_true _ _).mp hgoes
  obtain ⟨e, he, howner⟩ := (Option.any_eq_true _ _).mp hgoes
  exact ⟨Sample.crates, config, s, e, hconfig, hrun, he, of_decide_eq_true howner,
    open_sessions_taken hopen Sample.unnamed_peers hrun he "10.6.6.6"⟩

/-- **The rate of an open server binds nobody.** From every state of a service without tokens that
is configured by the environment, every peer can get in as many requests as it likes, without any
time going by. -/
theorem open_rate_evaded [Crates] {env : Environment} {config : ResolvedConfig}
    (henv : ResolvedConfig.fromEnv env = .ok config) (hopen : config.auth = .Disabled)
    {s : Service} (h : Service.Reachable config s) (peer : String) (call : Call) (n : Nat) :
    ∃ (incomings : List Incoming) (t : Service),
      (∀ incoming ∈ incomings, incoming.http.peer = peer) ∧
      Run.exec (Service.step config) s (incomings.map fun incoming => .request incoming s.now) =
        some t ∧
      t.now = s.now ∧ t.server.requests.length = s.server.requests.length + n := by
  have hself : authenticate config.auth config.defaultRate ⟨[], peer⟩ =
      .ok ⟨"ip:" ++ peer, config.defaultRate⟩ := by
    rw [hopen]
    rfl
  have hproper := ResolvedConfig.fromEnv_rates henv hself
  induction n generalizing s with
  | zero => exact ⟨[], s, List.forall_mem_nil _, rfl, rfl, rfl⟩
  | succ n ih =>
    obtain ⟨incoming, s', hpeer, hstep, hnow, hone⟩ :=
      Service.exists_let_in hopen hproper h peer call
    obtain ⟨events, hbefore⟩ := h
    have hnext : Service.Reachable config s' :=
      ⟨events ++ [.request incoming s.now],
        Run.exec_append.mpr ⟨s, hbefore, Run.exec_cons.mpr ⟨s', hstep, rfl⟩⟩⟩
    obtain ⟨incomings, t, hpeers, hrun, hnow', hmany⟩ := ih hnext
    rw [hnow] at hrun hnow'
    refine ⟨incoming :: incomings, t, List.forall_mem_cons.mpr ⟨hpeer, hpeers⟩,
      Run.exec_cons.mpr ⟨s', hstep, hrun⟩, hnow', ?_⟩
    omega

/-- Two hundred requests of one peer get in at once, at a rate of 120 a minute. -/
theorem open_rate_evaded_at_once :
    ∃ (_ : Crates) (config : ResolvedConfig) (incomings : List Incoming) (t : Service),
      ResolvedConfig.fromEnv (Sample.environment []) = .ok config ∧
      (∀ incoming ∈ incomings, incoming.http.peer = "10.6.6.6") ∧
      Run.exec (Service.step config) (.new config)
        (incomings.map fun incoming => .request incoming 0) = some t ∧
      t.now = 0 ∧ t.server.requests.length = 200 := by
  let _ := Sample.crates
  obtain ⟨config, hconfig, hopen⟩ : ∃ config,
      ResolvedConfig.fromEnv (Sample.environment []) = .ok config ∧ config.auth = .Disabled :=
    ⟨_, rfl, rfl⟩
  have hnew : Service.Reachable config (.new config) := ⟨[], rfl⟩
  obtain ⟨incomings, t, hpeers, hrun, hnow, hlength⟩ :=
    open_rate_evaded hconfig hopen hnew "10.6.6.6" (.compile { code := "" }) 200
  exact ⟨Sample.crates, config, incomings, t, hconfig, hpeers, hrun, hnow, hlength⟩

end MontyServer
