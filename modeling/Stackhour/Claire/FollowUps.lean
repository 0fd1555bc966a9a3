import Stackhour.Claire.Assessments

/-!
# Action results and their follow-ups

Every batch of results is submitted once, given up, or pending: each step keeps the
account. As long as no reply that changes what is pending is handled while other results
wait, no batch is lost to another; and the flag of the follow-up is set while its turn is
live, as long as no restart cuts it off.
-/

namespace Stackhour.Claire

open Domain TransitionSystem

variable {Action : Type*}

namespace State

/-! ## The account of the results -/

def Happening.batch : Happening → Option FollowUp
  | .executed run results => if results = [] then none else some ⟨run, followUpText results⟩
  | _ => none

def Happening.submitted : Happening → Option FollowUp
  | .turn _ (.followUp b) => some b
  | _ => none

def Happening.givenUp : Happening → Option FollowUp
  | .dropped b _ => some b
  | _ => none

/-- The batches of results that replies brought. -/
def batches (record : List Happening) : List FollowUp := record.filterMap Happening.batch

/-- The batches that a follow-up was started with. -/
def submitted (record : List Happening) : List FollowUp := record.filterMap Happening.submitted

/-- The batches that were given up. -/
def givenUp (record : List Happening) : List FollowUp := record.filterMap Happening.givenUp

/-- A batch is submitted, given up or pending as often as replies brought it. -/
def Balanced (s : State) : Prop := ∀ b, (batches s.record).count b =
  (submitted s.record).count b + (givenUp s.record).count b + s.view.results.toList.count b

/-- What a step adds to each column of the account. -/
theorem Balanced.step {s t : State} (h : s.Balanced) {more : List Happening}
    (hrecord : t.record = s.record ++ more)
    (hmore : ∀ b, (batches more).count b + s.view.results.toList.count b =
      (submitted more).count b + (givenUp more).count b + t.view.results.toList.count b) :
    t.Balanced := by
  intro b
  have hold := h b
  have hnew := hmore b
  rw [hrecord]
  unfold batches submitted givenUp at *
  simp only [List.filterMap_append, List.count_append]
  omega

theorem batches_drops (cause : Cause) (results : Option FollowUp) :
    batches (drops cause results) = [] ∧ submitted (drops cause results) = [] ∧
      givenUp (drops cause results) = results.toList := by
  cases results <;> exact ⟨rfl, rfl, rfl⟩

/-- Pending results are given up. -/
theorem Balanced.drops {s t : State} (h : s.Balanced) {cause : Cause}
    (hrecord : t.record = s.record ++ drops cause s.view.results) (hnone : t.view.results = none) :
    t.Balanced := by
  obtain ⟨hbatches, hsubmitted, hgiven⟩ := batches_drops cause s.view.results
  refine h.step hrecord fun b => ?_
  rw [hbatches, hsubmitted, hgiven, hnone]
  simp

/-- A step that leaves the account. -/
theorem Balanced.kept {s t : State} (h : s.Balanced) {more : List Happening}
    (hrecord : t.record = s.record ++ more)
    (hmore : batches more = [] ∧ submitted more = [] ∧ givenUp more = [])
    (hresults : t.view.results = s.view.results) : t.Balanced := by
  refine h.step hrecord fun b => ?_
  rw [hmore.1, hmore.2.1, hmore.2.2, hresults]
  simp

theorem Balanced.change {channel : String} {parse : String → Option (Envelope Action)}
    {s t : State} {a : Label Action} (h : s.Balanced) (hchange : Change channel parse s a t) :
    t.Balanced := by
  have hnone : batches [] = [] ∧ submitted [] = [] ∧ givenUp [] = [] := ⟨rfl, rfl, rfl⟩
  have hsame : t.record = s.record → t.record = s.record ++ [] :=
    fun hrecord => hrecord.trans (List.append_nil _).symm
  cases hchange with
  | still _ hview _ hrecord _ => exact h.kept (hsame hrecord) hnone (by rw [hview])
  | queued _ _ hview _ _ _ hrecord _ => exact h.kept hrecord ⟨rfl, rfl, rfl⟩ (by rw [hview])
  | letGo _ _ _ hview hrecord _ => exact h.drops hrecord (by rw [hview]; rfl)
  | unstarted _ _ _ _ hresults _ _ hrecord _ => exact h.kept (hsame hrecord) hnone hresults
  | asked _ _ _ _ _ _ _ hbegins hview =>
      exact h.kept hbegins.record ⟨rfl, rfl, rfl⟩ (by rw [hview])
  | followed b r _ _ hb hbegins hview =>
      refine h.step hbegins.record fun b' => ?_
      rw [hb, hview]
      show 0 + [b].count b' = [b].count b' + 0 + 0
      omega
  | woken _ _ _ _ hbegins hview => exact h.kept hbegins.record ⟨rfl, rfl, rfl⟩ (by rw [hview])
  | stalled b _ _ hb _ _ hresults _ hrecord _ =>
      refine h.step hrecord fun b' => ?_
      rw [hb, hresults]
      show 0 + [b].count b' = 0 + [b].count b' + 0
      omega
  | lost _ _ _ _ hview _ hrecord _ => exact h.kept (hsame hrecord) hnone (by rw [hview])
  | terminal e upto u _ _ hover ht _ _ =>
      subst ht
      cases hover with
      | other => exact h.kept (hsame rfl) hnone rfl
      | completed x hx => exact h.kept (hsame rfl) hnone (by rw [view_eq hx]; rfl)
      | failed x wakes hx _ _ => exact h.drops (by rw [view_eq hx]; rfl) rfl
  | replied e x r hd u hhandles hreplied ht =>
      obtain ⟨upto, rfl⟩ := ht
      have hview := view_eq hhandles.session
      have hresults : s.view.results = x.pendingFollowUp := by
        rw [hview]
        rfl
      cases hreplied with
      | malformed => exact h.drops (by rw [hresults]) rfl
      | refused envelope wakes _ _ _ _ =>
          obtain ⟨hbatches, hsubmitted, hgiven⟩ := batches_drops .refusedReply x.pendingFollowUp
          refine h.step (List.append_assoc _ _ _) fun b => ?_
          rw [hresults]
          unfold batches submitted givenUp at *
          simp only [List.filterMap_append, hbatches, hsubmitted, hgiven]
          show 0 + _ = 0 + ([] ++ x.pendingFollowUp.toList).count b + 0
          rw [List.nil_append]
          omega
      | pending envelope _ _ _ hbrought =>
          obtain ⟨hbatches, hsubmitted, hgiven⟩ := batches_drops .overwritten x.pendingFollowUp
          refine h.step (List.append_assoc _ _ _) fun b => ?_
          rw [hresults]
          have hbatch : batches [.executed e.run (actionResults hd envelope)] =
              [⟨e.run, followUpText (actionResults hd envelope)⟩] := by
            unfold batches Happening.batch
            simp [hbrought]
          unfold batches submitted givenUp at *
          simp only [List.filterMap_append, hbatches, hsubmitted, hgiven, hbatch]
          show ([_] ++ []).count b + _ = 0 + ([] ++ x.pendingFollowUp.toList).count b + [_].count b
          rw [List.append_nil, List.nil_append]
          omega
      | answered envelope wakes did said _ hdid hsaid =>
          refine h.kept (List.append_assoc _ _ _) ?_ hresults.symm
          rcases hdid with rfl | ⟨-, rfl⟩ <;> rcases hsaid with ⟨rfl, -⟩ | ⟨id, -, -, -, rfl⟩ <;>
            exact ⟨rfl, rfl, rfl⟩
  | restarted _ _ hview _ _ _ hrecord _ => exact h.kept (hsame hrecord) hnone (by rw [hview])

/-! ## Who brings results -/

/-- A reply is handled at most once. -/
theorem Change.unhandled {channel : String} {parse : String → Option (Envelope Action)}
    {s t : State} {a : Label Action} (h : Change channel parse s a t) (r : Run)
    (hr : t.Unhandled r) : s.Unhandled r := by
  cases h with
  | still hpass | queued _ hpass | letGo _ _ hpass | unstarted _ _ hpass | stalled _ _ _ _ hpass
  | lost _ _ _ hpass => exact hpass.unhandled r hr
  | asked _ _ _ _ _ _ _ hbegins _ => exact hbegins.passes.unhandled r hr
  | followed _ _ _ _ _ hbegins _ => exact hbegins.passes.unhandled r hr
  | woken _ _ _ _ hbegins _ => exact hbegins.passes.unhandled r hr
  | terminal _ _ _ _ _ _ _ hpass _ => exact hpass.unhandled r hr
  | replied _ _ _ _ _ hhandles _ _ => exact hhandles.others r hr
  | restarted _ _ _ _ _ hunhandled _ _ => exact hunhandled r hr

theorem mem_batches {record : List Happening} {b : FollowUp} : b ∈ batches record ↔
    ∃ results, results ≠ [] ∧ .executed b.source results ∈ record ∧
      b.text = followUpText results := by
  unfold batches
  rw [List.mem_filterMap]
  constructor
  · rintro ⟨happening, hmem, hb⟩
    cases happening with
    | executed run results =>
        unfold Happening.batch at hb
        dsimp only at hb
        split at hb
        · cases hb
        · next hne =>
            obtain rfl := Option.some.inj hb
            exact ⟨results, hne, hmem, rfl⟩
    | queued | turn | refused | dropped | completed => cases hb
  · rintro ⟨results, hne, hmem, htext⟩
    refine ⟨_, hmem, ?_⟩
    unfold Happening.batch
    dsimp only
    rw [if_neg hne, ← htext]

/-- The batches of a step's entries are of the reply that it handles. -/
theorem Change.batches_handled {channel : String} {parse : String → Option (Envelope Action)}
    {s t : State} {a : Label Action} (h : Change channel parse s a t) {more : List Happening}
    (hrecord : t.record = s.record ++ more) {b : FollowUp} (hb : b ∈ batches more) :
    ∃ e x r hd, Handles s t a e x r hd ∧ b.source = some r := by
  obtain ⟨results, -, hexecuted, -⟩ := mem_batches.mp hb
  obtain ⟨more', hrecord', hadds⟩ := h.record_new
  obtain rfl := List.append_cancel_left (hrecord.symm.trans hrecord')
  obtain ⟨e, x, r, hd, hhandles, hrun, -⟩ := hadds _ hexecuted
  exact ⟨e, x, r, hd, hhandles, hrun⟩

theorem Change.batches_new {channel : String} {parse : String → Option (Envelope Action)}
    {s t : State} {a : Label Action} (h : Change channel parse s a t) :
    ∃ more, t.record = s.record ++ more ∧ (batches more).length ≤ 1 := by
  have hsame : t.record = s.record → ∃ more, t.record = s.record ++ more ∧
      (batches more).length ≤ 1 :=
    fun hrecord => ⟨[], hrecord.trans (List.append_nil _).symm, Nat.zero_le 1⟩
  have hdrops : ∀ {cause results}, t.record = s.record ++ drops cause results →
      ∃ more, t.record = s.record ++ more ∧ (batches more).length ≤ 1 := by
    intro cause results hrecord
    refine ⟨_, hrecord, ?_⟩
    rw [(batches_drops cause results).1]
    exact Nat.zero_le 1
  cases h with
  | still _ _ _ hrecord _ => exact hsame hrecord
  | queued _ _ _ _ _ _ hrecord _ => exact ⟨_, hrecord, Nat.zero_le 1⟩
  | letGo _ _ _ _ hrecord _ => exact hdrops hrecord
  | unstarted _ _ _ _ _ _ _ hrecord _ => exact hsame hrecord
  | asked _ _ _ _ _ _ _ hbegins _ => exact ⟨_, hbegins.record, Nat.zero_le 1⟩
  | followed _ _ _ _ _ hbegins _ => exact ⟨_, hbegins.record, Nat.zero_le 1⟩
  | woken _ _ _ _ hbegins _ => exact ⟨_, hbegins.record, Nat.zero_le 1⟩
  | stalled _ _ _ _ _ _ _ _ hrecord _ => exact ⟨_, hrecord, Nat.zero_le 1⟩
  | lost _ _ _ _ _ _ hrecord _ => exact hsame hrecord
  | restarted _ _ _ _ _ _ hrecord _ => exact hsame hrecord
  | terminal e upto u _ _ hover ht _ _ =>
      subst ht
      cases hover with
      | other | completed => exact hsame rfl
      | failed => exact hdrops rfl
  | replied e x r h u hhandles hreplied ht =>
      obtain ⟨upto, rfl⟩ := ht
      have hone : ∀ {happening cause results}, u.record = s.record ++ [happening] ++
          drops cause results → ∃ more, u.record = s.record ++ more ∧ (batches more).length ≤ 1 := by
        intro happening cause results hrecord
        refine ⟨_, hrecord.trans (List.append_assoc _ _ _), ?_⟩
        unfold batches
        rw [List.filterMap_append, List.length_append]
        have hnone := congrArg List.length (batches_drops cause results).1
        unfold batches at hnone
        rw [hnone]
        exact List.length_filterMap_le _ _
      cases hreplied with
      | malformed => exact hdrops rfl
      | refused | pending => exact hone rfl
      | answered envelope wakes did said _ hdid hsaid =>
          refine ⟨_, List.append_assoc _ _ _, ?_⟩
          rcases hdid with rfl | ⟨-, rfl⟩ <;> rcases hsaid with ⟨rfl, -⟩ | ⟨id, -, -, -, rfl⟩ <;>
            exact Nat.zero_le 1

/-- The replies that were acted on: handled, and of no follow-up; none of them twice. -/
structure Executed (s : State) : Prop where
  handled : ∀ run results, .executed run results ∈ s.record →
    ∃ r, run = some r ∧ ¬s.Unhandled r ∧ ∀ b, .turn r (.followUp b) ∉ s.record
  nodup : (batches s.record).Nodup

theorem Executed.change {channel : String} {parse : String → Option (Envelope Action)}
    {s t : State} {a : Label Action} (h : s.Executed) (hturned : s.Turned)
    (hchange : Change channel parse s a t) : t.Executed := by
  -- no turn begins on a run whose reply was handled
  have hold : ∀ {r b}, ¬t.Unhandled r → .turn r (.followUp b) ∈ t.record →
      .turn r (.followUp b) ∈ s.record := fun hr hturn =>
    (hchange.adds hturn).resolve_right fun hbegins : Begins s t _ _ => hr hbegins.unhandled
  constructor
  · intro run results hexecuted
    rcases hchange.adds hexecuted with hmem | ⟨e, x, r, hd, hhandles, hrun, hprogress, -⟩
    · obtain ⟨r, hr, hhandled, hnone⟩ := h.handled run results hmem
      have hhandled' : ¬t.Unhandled r := fun hr => hhandled (hchange.unhandled r hr)
      exact ⟨r, hr, hhandled', fun b hturn => hnone b (hold hhandled' hturn)⟩
    · refine ⟨r, hrun, hhandles.handled, fun b hturn => ?_⟩
      have hview := view_eq hhandles.session
      have hflag := hturned.followUp r b (by rw [hview]; exact hhandles.run) hhandles.busy
        (hold hhandles.handled hturn) hhandles.unhandled
      rw [hview] at hflag
      exact absurd hflag (Bool.eq_false_iff.mp hprogress)
  · obtain ⟨more, hrecord, hone⟩ := hchange.batches_new
    have hbatches : batches t.record = batches s.record ++ batches more := by
      rw [hrecord]
      exact List.filterMap_append
    rw [hbatches]
    refine h.nodup.append (List.nodup_iff_count_le_one.mpr fun b =>
      List.count_le_length.trans hone) ?_
    -- the new batch is of a reply that was not handled before
    intro b hb hnew
    obtain ⟨results, -, hexecuted, -⟩ := mem_batches.mp hb
    obtain ⟨r, hr, hhandled, -⟩ := h.handled _ _ hexecuted
    obtain ⟨e, x, r', hd, hhandles, hrun⟩ := hchange.batches_handled hrecord hnew
    obtain rfl := Option.some.inj (hr.symm.trans hrun)
    exact hhandled hhandles.unhandled

/-! ## The flag of the follow-up -/

/-- The flag is set while a follow-up's turn is live, only follow-ups are refused, and no batch is
given up for another. -/
structure Flagged (s : State) : Prop where
  progress : s.view.progress = true → s.phase ≠ .boot ∧ s.view.results = none ∧
    ∃ r b, s.view.run = some r ∧ r ∈ s.busy ∧ .turn r (.followUp b) ∈ s.record ∧ s.Unhandled r
  refused : ∀ run, .refused run ∈ s.record →
    ∃ r b, run = some r ∧ .turn r (.followUp b) ∈ s.record
  cause : ∀ b cause, .dropped b cause ∈ s.record →
    cause ∈ [.stopped, .conversationReset, .reconfigured, .runFailed, .startFailed]

/-- No turn is started on a run that has ended, no restart cuts a follow-up's turn off, and a
reply that is handled while results are pending is well formed and brings none. -/
def Undivided (channel : String) (parse : String → Option (Envelope Action)) (s : State)
    (a : Label Action) : Prop :=
  Fresh channel s a ∧ (∀ now, a = .restart now → s.view.progress = false) ∧
    ∀ env h upto e, a = .output env h → s.phase = .handle upto e →
      e.kind = .messageAssistantCompleted → s.view.results ≠ none →
      ∃ envelope, parse e.text = some envelope ∧ actionResults h envelope = []

theorem Flagged.progress_change {channel : String} {parse : String → Option (Envelope Action)}
    {s t : State} {a : Label Action} (h : s.Flagged) (hguard : Undivided channel parse s a)
    (hchange : Change channel parse s a t) (hprogress : t.view.progress = true) :
    t.phase ≠ .boot ∧ t.view.results = none ∧ ∃ r b, t.view.run = some r ∧ r ∈ t.busy ∧
      .turn r (.followUp b) ∈ t.record ∧ t.Unhandled r := by
  have hmono := hchange.record_mono
  -- the turn goes on
  have hkept : Passes s t → s.view.progress = true → t.view.results = s.view.results →
      t.view.run = s.view.run → (∀ r, s.view.run = some r → r ∈ s.busy → r ∈ t.busy) →
      t.phase ≠ .boot ∧ t.view.results = none ∧ ∃ r b, t.view.run = some r ∧ r ∈ t.busy ∧
        .turn r (.followUp b) ∈ t.record ∧ t.Unhandled r := by
    intro hpass hold hresults hrun hbusy
    obtain ⟨hboot, hnone, r, b, hr, hmem, hturn, hunhandled⟩ := h.progress hold
    exact ⟨hpass.boot hboot, hresults.trans hnone, r, b, hrun.trans hr, hbusy r hr hmem,
      hmono hturn, hpass.still hboot r hunhandled⟩
  -- no turn is live
  have hidle : s.view.progress = true → ¬s.Idle := by
    intro hold hidle
    obtain ⟨-, -, r, b, hr, hmem, -⟩ := h.progress hold
    rw [State.view_run] at hr
    exact hidle r hr hmem
  have hempty : s.busy = [] → s.view.progress = true → False := by
    intro hbusy hold
    refine hidle hold fun r _ hmem => ?_
    rw [hbusy] at hmem
    cases hmem
  cases hchange with
  | still hpass hview hbusy _ _ =>
      exact hkept hpass (hview ▸ hprogress) (by rw [hview]) (by rw [hview]) fun r _ => hbusy ▸ id
  | queued _ hpass hview hbusy _ _ _ _ =>
      exact hkept hpass (hview ▸ hprogress) (by rw [hview]) (by rw [hview]) fun r _ => hbusy ▸ id
  | letGo _ _ _ hview _ _ =>
      rw [hview] at hprogress
      cases hprogress
  | unstarted hs _ _ _ _ hsame _ _ _ => exact absurd hs (hidle (hsame ▸ hprogress))
  | asked _ _ _ _ _ _ hs _ hview =>
      rw [hview] at hprogress
      exact absurd hs (hidle hprogress)
  | followed b r _ hphase _ hbegins hview =>
      refine ⟨hbegins.passes.boot (by rw [hphase]; nofun), by rw [hview], r, b, by rw [hview], ?_,
        hbegins.turn, hbegins.unhandled⟩
      rw [hbegins.busy]
      exact mem_insert.mpr (.inl rfl)
  | woken _ _ hbusy _ _ hview =>
      rw [hview] at hprogress
      exact (hempty hbusy hprogress).elim
  | stalled _ _ _ _ _ _ _ hnone _ _ =>
      rw [hnone] at hprogress
      cases hprogress
  | lost _ _ _ hpass hview hbusy _ _ =>
      rw [hview] at hprogress
      exact hkept hpass hprogress (by rw [hview]) (by rw [hview]) fun r _ => hbusy ▸ id
  | terminal e upto u _ _ hover ht hpass hhandled =>
      subst ht
      cases hover with
      | other hother =>
          refine hkept hpass hprogress rfl rfl fun r hr hmem => ?_
          have hne : some r ≠ e.run := by
            intro heq
            cases hx : s.session with
            | none =>
                rw [view_none hx] at hr
                cases hr
            | some x =>
                rw [view_eq hx] at hr
                exact hother x hx (hr.trans heq)
          exact List.mem_filter.mpr ⟨hmem, by simpa using hne⟩
      | completed x hx hrun hkind =>
          -- the reply of a follow-up clears the flag before its run completes
          have hview := view_eq hx
          obtain ⟨-, -, r, b, hr, -, -, hunhandled⟩ := h.progress (by rw [hview]; exact hprogress)
          rw [hview] at hr
          exact absurd hunhandled (hhandled hkind r (hrun.symm.trans hr))
      | failed => cases hprogress
  | replied e x r hd u _ hreplied ht =>
      obtain ⟨upto, rfl⟩ := ht
      cases hreplied <;> cases hprogress
  | restarted now ha hview _ _ _ _ _ =>
      rw [hview] at hprogress
      exact absurd hprogress (Bool.eq_false_iff.mp (hguard.2.1 now ha))

theorem Flagged.change {channel : String} {parse : String → Option (Envelope Action)}
    {s t : State} {a : Label Action} (h : s.Flagged) (hguard : Undivided channel parse s a)
    (hchange : Change channel parse s a t) : t.Flagged := by
  have hmono := hchange.record_mono
  refine ⟨h.progress_change hguard hchange, fun run hrun => ?_, fun b cause hb => ?_⟩
  · rcases hchange.adds hrun with hold | ⟨e, x, r, hd, hhandles, hr, hprogress⟩
    · obtain ⟨r, b, hr, hturn⟩ := h.refused run hold
      exact ⟨r, b, hr, hmono hturn⟩
    · have hview := view_eq hhandles.session
      obtain ⟨-, -, r', b, hr', -, hturn, -⟩ := h.progress (by rw [hview]; exact hprogress)
      rw [hview] at hr'
      obtain rfl := Option.some.inj (hhandles.run.symm.trans hr')
      exact ⟨r, b, hr, hmono hturn⟩
  · rcases hchange.adds hb with hold | ⟨hresults, hcause | ⟨e, x, r, hd, hhandles, hwhy⟩⟩
    · exact h.cause b cause hold
    · exact hcause
    · have hpending : s.view.results ≠ none := by
        rw [hresults]
        nofun
      obtain ⟨env, ha⟩ := hhandles.label
      obtain ⟨upto, hphase⟩ := hhandles.phase
      obtain ⟨envelope, hparse, hnone⟩ := hguard.2.2 env hd upto e ha hphase hhandles.kind hpending
      rcases hwhy with hmalformed | hprogress | ⟨envelope', hparse', hbrought⟩
      · cases hmalformed.symm.trans hparse
      · have hview := view_eq hhandles.session
        exact absurd (h.progress (by rw [hview]; exact hprogress)).2.1 hpending
      · obtain rfl := Option.some.inj (hparse.symm.trans hparse')
        exact absurd hnone hbrought

/-! ## Runs -/

/-- A batch of results is submitted once, or given up for a reason that may give it up, or pending;
no follow-up acts, and only a follow-up's reply is refused. -/
structure Delivered (s : State) : Prop where
  once : ∀ b ∈ batches s.record, (submitted s.record).count b + (givenUp s.record).count b +
    s.view.results.toList.count b = 1
  brought : ∀ b, b ∈ submitted s.record ∨ b ∈ givenUp s.record ∨ s.view.results = some b →
    b ∈ batches s.record
  cause : ∀ b cause, .dropped b cause ∈ s.record →
    cause ∈ [.stopped, .conversationReset, .reconfigured, .runFailed, .startFailed]
  passive : ∀ r b results, .turn r (.followUp b) ∈ s.record →
    .executed (some r) results ∉ s.record
  progress : s.view.progress = true → ∃ r b, s.view.run = some r ∧ r ∈ s.busy ∧
    .turn r (.followUp b) ∈ s.record ∧ s.Unhandled r
  refused : ∀ run, .refused run ∈ s.record →
    ∃ r b, run = some r ∧ .turn r (.followUp b) ∈ s.record

theorem flagged_of_reach {channel : String} {parse : String → Option (Envelope Action)} {s : State}
    (h : (system channel parse).Reach (Undivided channel parse) s) :
    s.Turned ∧ s.Balanced ∧ s.Executed ∧ s.Flagged := by
  apply System.Reach.invariant_reach
    (P := fun s : State => s.Turned ∧ s.Balanced ∧ s.Executed ∧ s.Flagged) _ _ h
  · rintro s ⟨engine, rfl⟩
    exact ⟨Turned.initial engine, fun _ => rfl, ⟨nofun, .nil⟩, ⟨nofun, nofun, nofun⟩⟩
  · rintro s a t hreach ⟨hturned, hbalanced, hexecuted, hflagged⟩ hguard hstep
    have hbase := base_of_reach (hreach.mono fun _ _ => And.left)
    have hchange := hbase.change hguard.1 hstep
    exact ⟨hturned.change hchange, hbalanced.change hchange, hexecuted.change hturned hchange,
      hflagged.change hguard hchange⟩

end State

end Stackhour.Claire
