import MontyServer.WellFormed

/-!
# What becomes of a session's progress

A resume takes the progress out of its session and hands it to a blocking task. The progress is
kept, so that the session can go on, exactly as long as no resume is dropped, cancelled or panics on
the way (`progress_kept_iff`): there is no guard that puts it back.
-/

namespace MontyServer

variable [Crates]

namespace Server

/-! ## Kept sessions -/

omit [Crates] in
/-- Every stored session is finished, or can be resumed, or is held by a resume that is still there
and will store a step or put the progress back. -/
def Kept (s : Server) : Prop :=
  ∀ id ∈ s.app.sessions.sessions, ∀ e, s.entry id = some e → e.terminal = false →
    e.progress.isSome = true ∨ ∃ (i : RequestId) (h : Checkout.Hand Token Link),
      s.hand id i = some h ∧ h.Live

variable {s s' : Server} {a : Action} {id : Uuid}

/-- What the cell of a session says of its entry. -/
theorem Wf.kept_cell_iff (wf : s.Wf) :
    Checkout.Kept rules (s.cell id) ↔
      ∀ e, s.entry id = some e → e.terminal = false →
        e.progress.isSome = true ∨ ∃ (i : RequestId) (h : Checkout.Hand Token Link),
          s.hand id i = some h ∧ h.Live := by
  constructor
  · rintro (hlatest | hhome | hhand) e he hterminal
    · rw [(wf.latest_eq_none_iff he).mp hlatest] at hterminal
      cases hterminal
    · exact .inl (by simpa [Server.cell, he] using hhome)
    · exact .inr hhand
  · intro h
    cases he : s.entry id with
    | none => exact .inl (by rw [Server.cell, (wf.head id).1 he]; rfl)
    | some e =>
      cases hterminal : e.terminal with
      | true => exact .inl ((wf.latest_eq_none_iff he).mpr hterminal)
      | false =>
        rcases h e he hterminal with hp | hhand
        · exact .inr (.inl (by simpa [Server.cell, he] using hp))
        · exact .inr (.inr hhand)

theorem Wf.kept_iff (wf : s.Wf) :
    s.Kept ↔ ∀ id ∈ s.app.sessions.sessions, Checkout.Kept rules (s.cell id) :=
  forall₂_congr fun _ _ => wf.kept_cell_iff.symm

/-- Where the keys of the map come from. -/
theorem Trans.key_cases (h : s.Trans a s') (hid : id ∈ s'.app.sessions.sessions) :
    id ∈ s.app.sessions.sessions ∨ s.entry id = none := by
  cases h with
  | create _ h =>
    cases h with
    | insert hnone =>
      rcases List.mem_cons.mp hid with rfl | hid
      · exact .inr hnone
      · exact .inl hid
    | _ => exact .inl hid
  | resume _ h => cases h <;> exact .inl (by simpa using hid)
  | delete _ h =>
    cases h with
    | remove => exact .inl (List.mem_of_mem_filter hid)
    | _ => exact .inl hid
  | evict _ => exact .inl (List.mem_of_mem_filter hid)
  | _ => exact .inl hid

omit [Crates] in
/-- What is let go of is the progress of a session that is there. -/
theorem LetsGo.entry_ne_none (hgo : s.LetsGo a id) : s.entry id ≠ none := by
  intro hnone
  unfold LetsGo at hgo
  split at hgo
  · obtain ⟨h, hh, -⟩ := hgo
    cases (hand_of_no_entry hnone).symm.trans hh
  · obtain ⟨h, hh, -⟩ := hgo
    cases (hand_of_no_entry hnone).symm.trans hh
  · obtain ⟨_, _, _, _, _, e, -, he, -⟩ := hgo
    cases hnone.symm.trans he
  · exact hgo

/-- A step that lets go of a progress leaves the map alone. -/
theorem LetsGo.keys_eq (hgo : s.LetsGo a id) (h : s.Trans a s') :
    s'.app.sessions.sessions = s.app.sessions.sessions := by
  have hmove : a ≠ .collect ∧ a ≠ .evict ∧ ∀ i, a ≠ .move i .advance ∧
      ∀ id', a ≠ .move i (.insert id') := by
    refine ⟨?_, ?_, fun i => ⟨?_, fun id' => ?_⟩⟩ <;>
      · rintro rfl
        exact hgo
  cases h with
  | create _ h =>
    cases h with
    | insert _ => exact ((hmove.2.2 _).2 _ rfl).elim
    | _ => rfl
  | resume _ h => cases h <;> simp
  | delete _ h =>
    cases h with
    | remove => exact ((hmove.2.2 _).1 rfl).elim
    | _ => rfl
  | evict _ => exact (hmove.2.1 rfl).elim
  | _ => rfl

/-- **Step lemma**: a step keeps every stored session going exactly if it lets go of none. -/
theorem Wf.kept_step_iff (wf : s.Wf) (hkept : s.Kept) (h : s.step a = some s') :
    s'.Kept ↔ ∀ id ∈ s.app.sessions.sessions, ¬ s.LetsGo a id := by
  rw [(wf.step h).kept_iff]
  rw [wf.kept_iff] at hkept
  constructor
  · intro hkept' id hid hgo
    have hid' := hid
    rw [← hgo.keys_eq (step_cases h)] at hid'
    cases wf.effect h id with
    | same _ _ hnot => exact hnot hgo
    | step e hstep hiff =>
      exact (hstep.kept_iff (wf.cell id)).mp (hkept' id hid') ((hiff (hkept id hid)).mpr hgo)
  · intro hnot id hid
    have hbefore : Checkout.Kept rules (s.cell id) ∧ ¬ s.LetsGo a id := by
      rcases (step_cases h).key_cases hid with hid | hnone
      · exact ⟨hkept id hid, hnot id hid⟩
      · refine ⟨wf.kept_cell_iff.mpr ?_, fun hgo => hgo.entry_ne_none hnone⟩
        intro e he
        cases hnone.symm.trans he
    cases wf.effect h id with
    | same _ hcell _ => rw [hcell]; exact hbefore.1
    | step e hstep hiff =>
      exact (hstep.kept_iff (wf.cell id)).mpr fun habandons =>
        hbefore.2 ((hiff hbefore.1).mp habandons)

end Server

/-- **A progress is kept exactly as long as nobody lets go of it.** For every interleaving: in every
state reached every stored session that has not finished can be resumed or is held by a resume that
will store a step or put the progress back, if and only if the run never drops a request that holds
the progress of a stored session, cancels its task, or has the interpreter panic in it. -/
theorem progress_kept_iff (config : Config) (as : List Action) :
    Run.Throughout Server.step Server.Kept (.new config) as ↔
      Run.EveryStep Server.step
        (fun s a => ∀ id ∈ s.app.sessions.sessions, ¬ s.LetsGo a id) (.new config) as :=
  Run.throughout_iff_everyStep (fun _ _ _ wf hstep => wf.step hstep)
    (fun _ _ _ wf hkept hstep => wf.kept_step_iff hkept hstep) (Server.Wf.new config)
    (fun _ hid => nomatch hid)

omit [Crates] in
/-- Session `id` is stored and unfinished, its progress is gone, and no request has it. -/
def Server.lost (s : Server) (id : Uuid) : Bool :=
  s.app.sessions.sessions.contains id &&
  (s.entry id).any (fun e => !e.terminal && e.progress.isNone) &&
  (List.range s.requests.length).all fun i => (s.hand id i).isNone

omit [Crates] in
theorem Server.not_kept_of_lost {s : Server} {id : Uuid} (h : s.lost id = true) : ¬ s.Kept := by
  intro hkept
  simp only [lost, Bool.and_eq_true, List.contains_eq_mem, decide_eq_true_eq,
    Option.any_eq_true, Bool.not_eq_true', List.all_eq_true, List.mem_range] at h
  obtain ⟨⟨hid, e, he, hterminal, hp⟩, hhands⟩ := h
  rcases hkept id hid e he hterminal with hsome | ⟨i, hand, hhand, -⟩
  · cases hprogress : e.progress <;> simp_all
  · have hi : i < s.requests.length := by
      cases hr : s.requests[i]? with
      | none => simp [Server.hand, hr] at hhand
      | some r => exact (List.getElem?_eq_some_iff.mp hr).1
    have := hhands i hi
    rw [hhand] at this
    cases this

omit [Crates] in
/-- A client that goes away while its resume is queued leaves its session busy for good. -/
theorem dropped_resume_loses_progress :
    ¬ ∀ (_ : Crates) (config : Config) (as : List Action),
      Run.Throughout Server.step Server.Kept (.new config) as := by
  intro h
  let _ := Sample.crates
  have hlost : (Run.exec Server.step (.new Sample.config)
      (Sample.opening ++ Sample.taking 1 ++ [.move 1 .drop])).any (·.lost 7) = true := by decide
  obtain ⟨s, hs, hlost⟩ := Option.any_eq_true _ _ |>.mp hlost
  exact Server.not_kept_of_lost hlost ((h Sample.crates Sample.config _).last hs)

end MontyServer
