import Stackhour.Claire.Changes

/-!
# Wakes and their assessments

A wake that a session waits for is the one its live turn assesses, or the one whose
results are pending, as long as no message starts a turn while a wake is waited for. So
a wake is completed by its own assessment, and every other wake stays open.
-/

namespace Stackhour.Claire

open Domain TransitionSystem

variable {Action : Type*}

namespace State

/-! ## Wakes in the table -/

theorem deferred_map (now : DateTime) (error : String) (id : EventId) (wakes : List WakeRow) :
    ∃ f : WakeRow → WakeRow, deferred now error id wakes = wakes.map f ∧
      ∀ w, (f w).eventId = w.eventId ∧ (f w).processedAt = w.processedAt := by
  unfold deferred
  cases wakes.find? (Store.openWake id) with
  | none => exact ⟨fun w => w, (List.map_id wakes).symm, fun w => ⟨rfl, rfl⟩⟩
  | some wake =>
      refine ⟨_, rfl, fun w => ?_⟩
      split <;> exact ⟨rfl, rfl⟩

/-- What deferring leaves of the rows. -/
theorem Deferral.map {wakes wakes' : List WakeRow} (h : Deferral wakes wakes') :
    ∃ f : WakeRow → WakeRow, wakes' = wakes.map f ∧
      ∀ w, (f w).eventId = w.eventId ∧ (f w).processedAt = w.processedAt := by
  rcases h with rfl | ⟨now, error, id, rfl⟩
  · exact ⟨id, (List.map_id _).symm, fun w => ⟨rfl, rfl⟩⟩
  · exact deferred_map now error id wakes

/-- Completing a wake leaves the other rows. -/
theorem completed_map (now : DateTime) (id : EventId) (wakes : List WakeRow) :
    ∃ f : WakeRow → WakeRow, completed now id wakes = wakes.map f ∧
      ∀ w, (f w).eventId = w.eventId ∧
        ((f w).processedAt = w.processedAt ∨ w.eventId = id) := by
  refine ⟨_, rfl, fun w => ?_⟩
  split
  · next hopen =>
      unfold Store.openWake at hopen
      exact ⟨rfl, .inr (of_decide_eq_true hopen).1⟩
  · exact ⟨rfl, .inl rfl⟩

/-- What a step does to the rows: a wake is added, or rows are deferred, or one is completed. -/
theorem Change.wakes {channel : String} {parse : String → Option (Envelope Action)} {s t : State}
    {a : Label Action} (h : Change channel parse s a t) :
    (∃ row, row.processedAt = none ∧ t.wakes = s.wakes ++ [row]) ∨
      ∃ f : WakeRow → WakeRow, t.wakes = s.wakes.map f ∧ ∀ w, (f w).eventId = w.eventId ∧
        ((f w).processedAt = w.processedAt ∨ ∃ c, .completed c ∈ t.record ∧ c.wake = w.eventId) := by
  have hdeferral : ∀ {wakes}, Deferral s.wakes wakes → t.wakes = wakes →
      ∃ f : WakeRow → WakeRow, t.wakes = s.wakes.map f ∧ ∀ w, (f w).eventId = w.eventId ∧
        ((f w).processedAt = w.processedAt ∨
          ∃ c, .completed c ∈ t.record ∧ c.wake = w.eventId) := by
    rintro wakes hwakes rfl
    obtain ⟨f, hf, hrow⟩ := hwakes.map
    exact ⟨f, hf, fun w => ⟨(hrow w).1, .inl (hrow w).2⟩⟩
  cases h with
  | still _ _ _ _ hwakes => exact .inr (hdeferral (.inl rfl) hwakes)
  | queued row _ _ _ hopen _ _ hwakes => exact .inl ⟨row, hopen, hwakes⟩
  | letGo _ _ _ _ _ hwakes => exact .inr (hdeferral hwakes rfl)
  | unstarted _ _ _ _ _ _ _ _ hwakes => exact .inr (hdeferral hwakes rfl)
  | asked _ _ _ _ _ _ _ hbegins _ => exact .inr (hdeferral (.inl rfl) hbegins.wakes)
  | followed _ _ _ _ _ hbegins _ => exact .inr (hdeferral (.inl rfl) hbegins.wakes)
  | woken _ _ _ _ hbegins _ => exact .inr (hdeferral (.inl rfl) hbegins.wakes)
  | stalled _ _ _ _ _ _ _ _ _ hwakes => exact .inr (hdeferral hwakes rfl)
  | lost _ _ _ _ _ _ _ hwakes => exact .inr (hdeferral hwakes rfl)
  | restarted _ _ _ _ _ _ _ hwakes => exact .inr (hdeferral hwakes rfl)
  | terminal e upto u _ _ hover ht _ _ =>
      subst ht
      cases hover with
      | other | completed => exact .inr (hdeferral (.inl rfl) rfl)
      | failed x wakes _ _ hwakes => exact .inr (hdeferral hwakes rfl)
  | replied e x r h u hhandles hreplied ht =>
      obtain ⟨upto, rfl⟩ := ht
      right
      cases hreplied with
      | malformed wakes hwakes _ => exact hdeferral hwakes rfl
      | refused envelope wakes hwakes _ _ _ => exact hdeferral hwakes rfl
      | pending => exact hdeferral (.inl rfl) rfl
      | answered envelope wakes did said _ _ hsaid =>
          rcases hsaid with ⟨-, hwakes⟩ | ⟨id, -, -, rfl, rfl⟩
          · exact hdeferral hwakes rfl
          · obtain ⟨f, hf, hrow⟩ := completed_map h.now id s.wakes
            refine ⟨f, hf, fun w => ⟨(hrow w).1, (hrow w).2.imp_right fun hid => ?_⟩⟩
            exact ⟨_, List.mem_append_right _ List.mem_cons_self, hid.symm⟩

/-- A wake of the record has its row, and a row is open unless its wake was completed. -/
structure Kept (s : State) : Prop where
  queued : ∀ id, .queued id ∈ s.record → ∃ row ∈ s.wakes, row.eventId = id
  processed : ∀ row ∈ s.wakes, row.processedAt = none ∨
    ∃ c, .completed c ∈ s.record ∧ c.wake = row.eventId

theorem Kept.change {channel : String} {parse : String → Option (Envelope Action)} {s t : State}
    {a : Label Action} (h : s.Kept) (hchange : Change channel parse s a t) : t.Kept := by
  have hmono := hchange.record_mono
  have hold : ∀ row ∈ s.wakes, row.processedAt = none ∨
      ∃ c, .completed c ∈ t.record ∧ c.wake = row.eventId := fun row hrow =>
    (h.processed row hrow).imp_right fun ⟨c, hc, hwake⟩ => ⟨c, hmono hc, hwake⟩
  have hrows : ∀ row ∈ s.wakes, ∃ row' ∈ t.wakes, row'.eventId = row.eventId := by
    intro row hrow
    rcases hchange.wakes with ⟨new, -, hwakes⟩ | ⟨f, hwakes, hf⟩
    · exact ⟨row, hwakes ▸ List.mem_append_left _ hrow, rfl⟩
    · exact ⟨f row, hwakes ▸ List.mem_map_of_mem hrow, (hf row).1⟩
  constructor
  · intro id hid
    rcases hchange.adds hid with hid | ⟨row, hrow, -, hwakes⟩
    · obtain ⟨row, hrow, hrowId⟩ := h.queued id hid
      obtain ⟨row', hrow', hsame⟩ := hrows row hrow
      exact ⟨row', hrow', hsame.trans hrowId⟩
    · exact ⟨row, hwakes ▸ List.mem_append_right _ List.mem_cons_self, hrow⟩
  · intro row hrow
    rcases hchange.wakes with ⟨new, hopen, hwakes⟩ | ⟨f, hwakes, hf⟩
    · rw [hwakes] at hrow
      rcases List.mem_append.mp hrow with hrow | hrow
      · exact hold row hrow
      · rw [List.mem_singleton.mp hrow]
        exact .inl hopen
    · rw [hwakes] at hrow
      obtain ⟨w, hw, rfl⟩ := List.mem_map.mp hrow
      obtain ⟨hid, hsame | hcompleted⟩ := hf w
      · rw [hsame, hid]
        exact hold w hw
      · rw [hid]
        exact .inr hcompleted

/-! ## The turn that a wake waits for -/

/-- The results are those of the wake's own assessment. -/
def Reports (s : State) (id : EventId) (b : FollowUp) : Prop :=
  ∃ r, b.source = some r ∧ .turn r (.wake id) ∈ s.record

/-- The prompt is the wake, or the results of its own assessment. -/
def Assesses (s : State) (id : EventId) : Prompt → Prop
  | .user _ => False
  | .wake id' => id' = id
  | .followUp b => s.Reports id b

theorem Reports.mono {s t : State} {id : EventId} {b : FollowUp} (h : s.Reports id b)
    (hmono : s.record ⊆ t.record) : t.Reports id b := by
  obtain ⟨r, hr, hturn⟩ := h
  exact ⟨r, hr, hmono hturn⟩

theorem Assesses.mono {s t : State} {id : EventId} {prompt : Prompt} (h : s.Assesses id prompt)
    (hmono : s.record ⊆ t.record) : t.Assesses id prompt := by
  cases prompt with
  | user text => exact h
  | wake id' => exact h
  | followUp b => exact Reports.mono h hmono

/-- The session's turn assesses the wake; once its reply is handled, its results are pending. -/
structure Assessing (s : State) (id : EventId) (r : Run) (prompt : Prompt) : Prop where
  run : s.view.run = some r
  busy : r ∈ s.busy
  turn : .turn r prompt ∈ s.record
  prompt : s.Assesses id prompt
  before : s.Unhandled r → s.view.results = none
  after : ¬s.Unhandled r → ∃ b, s.view.results = some b ∧ s.Reports id b

/-- The wake that the session waits for is being assessed, or its results wait. -/
def Awaited (s : State) (id : EventId) : Prop :=
  s.phase ≠ .boot ∧ ((∃ r prompt, s.Assessing id r prompt) ∨
    (s.Idle ∧ ∃ b, s.view.results = some b ∧ s.Reports id b))

/-- A wake was completed by a reply of its own assessment. -/
structure Assessed (parse : String → Option (Envelope Action)) (s : State) (c : Completion) :
    Prop where
  reply : c.reply.kind = .messageAssistantCompleted
  shown : ∃ envelope, parse c.reply.text = some envelope ∧ c.shown = shown envelope
  delivered : c.shown = none ∨ c.sent = true
  settled : c.pending = none
  turn : ∃ r prompt, c.reply.run = some r ∧ .turn r prompt ∈ s.record ∧ s.Assesses c.wake prompt

structure Woken (parse : String → Option (Envelope Action)) (s : State) : Prop where
  awaited : ∀ id, s.view.wake = some id → s.Awaited id
  drained : s.phase = .wake → s.busy ≠ [] ∨ s.view.results = none
  assessed : ∀ c, .completed c ∈ s.record → s.Assessed parse c

/-- An idle session is not assessing. -/
theorem Assessing.not_idle {s : State} {id : EventId} {r : Run} {prompt : Prompt}
    (h : s.Assessing id r prompt) : ¬s.Idle := by
  intro hidle
  refine hidle r ?_ h.busy
  rw [← State.view_run]
  exact h.run

theorem Awaited.results {s : State} {id : EventId} (h : s.Awaited id) (hidle : s.Idle) :
    ∃ b, s.view.results = some b ∧ s.Reports id b := by
  obtain ⟨-, ⟨r, prompt, hassessing⟩ | ⟨-, hresults⟩⟩ := h
  · exact absurd hidle hassessing.not_idle
  · exact hresults

/-- A step that leaves what is pending. -/
theorem Awaited.passes {s t : State} {id : EventId} (h : s.Awaited id) (hpass : Passes s t)
    (hview : t.view = s.view) (hbusy : ∀ r, s.view.run = some r → (r ∈ t.busy ↔ r ∈ s.busy))
    (hmono : s.record ⊆ t.record) : t.Awaited id := by
  obtain ⟨hboot, hcases⟩ := h
  refine ⟨hpass.boot hboot, ?_⟩
  rcases hcases with ⟨r, prompt, hrun, hin, hturn, hprompt, hbefore, hafter⟩ | ⟨hidle, b, hb, hreports⟩
  · refine .inl ⟨r, prompt, ⟨hview ▸ hrun, (hbusy r hrun).mpr hin, hmono hturn,
      hprompt.mono hmono, fun hr => ?_, fun hr => ?_⟩⟩
    · rw [hview]
      exact hbefore (hpass.unhandled r hr)
    · obtain ⟨b, hb, hreports⟩ := hafter fun hr' => hr (hpass.still hboot r hr')
      exact ⟨b, hview ▸ hb, hreports.mono hmono⟩
  · refine .inr ⟨fun r hr => ?_, b, hview ▸ hb, hreports.mono hmono⟩
    rw [← State.view_run, hview] at hr
    rw [hbusy r hr]
    exact hidle r (State.view_run s ▸ hr)

theorem Woken.drained_change {channel : String} {parse : String → Option (Envelope Action)}
    {s t : State} {a : Label Action} (h : s.Woken parse) (hchange : Change channel parse s a t)
    (hphase : t.phase = .wake) : t.busy ≠ [] ∨ t.view.results = none := by
  have hpassed : ∀ (_ : Passes s t) (_ : s.phase = .wake → t.busy ≠ [] ∨ t.view.results = none),
      t.busy ≠ [] ∨ t.view.results = none := fun hpass hwake =>
    (hpass.wake hphase).elim hwake id
  have hbegun : ∀ {r prompt}, Begins s t r prompt → t.busy ≠ [] ∨ t.view.results = none := by
    intro r prompt hbegins
    left
    rw [hbegins.busy]
    exact List.ne_nil_of_mem (mem_insert.mpr (.inl rfl))
  cases hchange with
  | still hpass hview hbusy _ _ =>
      refine hpassed hpass fun hwake => ?_
      rw [hbusy, hview]
      exact h.drained hwake
  | queued _ hpass hview hbusy _ _ _ _ =>
      refine hpassed hpass fun hwake => ?_
      rw [hbusy, hview]
      exact h.drained hwake
  | letGo _ _ hpass hview _ _ =>
      right
      rw [hview]
      rfl
  | unstarted _ _ hpass _ hresults _ hbusy _ _ =>
      refine hpassed hpass fun hwake => ?_
      rw [hbusy, hresults]
      exact h.drained hwake
  | asked _ _ _ _ _ _ _ hbegins _ => exact hbegun hbegins
  | followed _ _ _ _ _ hbegins _ => exact hbegun hbegins
  | woken _ _ _ _ hbegins _ => exact hbegun hbegins
  | stalled _ _ _ _ _ _ hresults _ _ _ => exact .inr hresults
  | lost _ _ _ hpass hview hbusy _ _ =>
      refine hpassed hpass fun hwake => ?_
      rw [hbusy, hview]
      exact h.drained hwake
  | terminal e upto u _ _ _ ht _ _ =>
      subst ht
      cases hphase
  | replied e x r h u _ _ ht =>
      obtain ⟨upto, rfl⟩ := ht
      cases hphase
  | restarted _ _ _ _ hboot _ _ _ =>
      rw [hboot] at hphase
      cases hphase

/-- No turn is started on a run that has ended, and no message starts one while the session waits
for a wake. -/
def Undisturbed (channel : String) (s : State) (a : Label Action) : Prop :=
  Fresh channel s a ∧ ∀ text env, a = .input text env → Starts channel s a → s.view.wake = none

theorem Woken.awaited_change {channel : String} {parse : String → Option (Envelope Action)}
    {s t : State} {a : Label Action} (h : s.Woken parse) (hturned : s.Turned)
    (hquiet : Undisturbed channel s a) (hchange : Change channel parse s a t) (id : EventId)
    (hwake : t.view.wake = some id) : t.Awaited id := by
  have hmono := hchange.record_mono
  cases hchange with
  | still hpass hview hbusy _ _ =>
      exact (h.awaited id (hview ▸ hwake)).passes hpass hview (fun r _ => by rw [hbusy]) hmono
  | queued _ hpass hview hbusy _ _ _ _ =>
      exact (h.awaited id (hview ▸ hwake)).passes hpass hview (fun r _ => by rw [hbusy]) hmono
  | letGo _ _ _ hview _ _ =>
      rw [hview] at hwake
      cases hwake
  | unstarted hidle hidle' hpass hkept hresults _ _ _ _ =>
      rcases hkept with hkept | hnone
      · have hold := h.awaited id (hkept ▸ hwake)
        obtain ⟨b, hb, hreports⟩ := hold.results hidle
        exact ⟨hpass.boot hold.1, .inr ⟨hidle', b, hresults.trans hb, hreports.mono hmono⟩⟩
      · rw [hnone] at hwake
        cases hwake
  | asked text prompt env r ha hstarts _ _ hview =>
      rw [hview] at hwake
      have hnone := hquiet.2 text env ha hstarts
      rw [hnone] at hwake
      cases hwake
  | followed b r hbusy hphase hb hbegins hview =>
      have hold := h.awaited id (by rw [hview] at hwake; exact hwake)
      obtain ⟨b', hb', hreports⟩ := hold.results (idle_of_busy hbusy)
      obtain rfl := Option.some.inj (hb.symm.trans hb')
      refine ⟨hbegins.passes.boot hold.1, .inl ⟨r, .followUp b, ⟨?_, ?_, hbegins.turn,
        hreports.mono hmono, fun _ => ?_, fun hr => absurd hbegins.unhandled hr⟩⟩⟩
      · rw [hview]
      · rw [hbegins.busy]
        exact mem_insert.mpr (.inl rfl)
      · rw [hview]
  | woken id' r hbusy hphase hbegins hview =>
      rw [hview] at hwake
      obtain rfl := Option.some.inj hwake
      have hnone : s.view.results = none :=
        (h.drained hphase).resolve_left (fun hne => hne hbusy)
      refine ⟨hbegins.passes.boot (by rw [hphase]; nofun), .inl ⟨r, .wake id', ⟨?_, ?_, hbegins.turn,
        rfl, fun _ => ?_, fun hr => absurd hbegins.unhandled hr⟩⟩⟩
      · rw [hview]
      · rw [hbegins.busy]
        exact mem_insert.mpr (.inl rfl)
      · rw [hview]
        exact hnone
  | stalled _ _ _ _ _ hnone _ _ _ _ =>
      rw [hnone] at hwake
      cases hwake
  | lost _ _ _ _ hview _ _ _ =>
      rw [hview] at hwake
      cases hwake
  | terminal e upto u _ _ hover ht hpass hhandled =>
      subst ht
      cases hover with
      | other hother =>
          refine (h.awaited id hwake).passes hpass rfl (fun r hr => ?_) hmono
          have hne : some r ≠ e.run := by
            rw [State.view_run] at hr
            obtain ⟨x, hx, hxr⟩ := Option.bind_eq_some_iff.mp hr
            rw [← hxr]
            exact hother x hx
          show r ∈ freed e s.busy ↔ _
          unfold freed
          rw [List.mem_filter]
          exact and_iff_left (by simpa using hne)
      | completed x hx hrun hkind =>
          have hold := h.awaited id (by rw [view_eq hx]; exact hwake)
          have hnone : ∀ {u : State}, u.namedRun = none → u.Idle := by
            intro u hu r hr
            rw [hu] at hr
            cases hr
          refine ⟨hpass.boot hold.1, .inr ⟨hnone rfl, ?_⟩⟩
          obtain ⟨-, ⟨r, prompt, hassessing⟩ | ⟨-, b, hb, hreports⟩⟩ := hold
          · have hr : e.run = some r := by
              rw [← hrun, ← hassessing.run, view_eq hx]
              rfl
            obtain ⟨b, hb, hreports⟩ := hassessing.after (hhandled hkind r hr)
            rw [view_eq hx] at hb
            exact ⟨b, hb, hreports.mono hmono⟩
          · rw [view_eq hx] at hb
            exact ⟨b, hb, hreports.mono hmono⟩
      | failed => cases hwake
  | replied e x r hd u hhandles hreplied ht =>
      obtain ⟨upto, rfl⟩ := ht
      cases hreplied with
      | malformed | refused | answered => cases hwake
      | pending envelope hparse hprogress hworks hresults =>
          have hview := view_eq hhandles.session
          have hold := h.awaited id (by rw [hview]; exact hwake)
          have hbusy := hhandles.busy
          obtain ⟨-, ⟨r', prompt, hassessing⟩ | ⟨hidle, -⟩⟩ := hold
          · have hrun := hassessing.run
            rw [hview] at hrun
            obtain rfl := Option.some.inj (hhandles.run.symm.trans hrun)
            -- a follow-up's reply would have been refused
            have hprompt : prompt = .wake id := by
              cases prompt with
              | user text => exact hassessing.prompt.elim
              | wake id' => rw [show id' = id from hassessing.prompt]
              | followUp b =>
                  have hflag := hturned.followUp r b hassessing.run hbusy hassessing.turn
                    hhandles.unhandled
                  rw [hview] at hflag
                  exact absurd hflag (Bool.eq_false_iff.mp hprogress)
            have hturn := hassessing.turn
            rw [hprompt] at hturn
            refine ⟨nofun, .inl ⟨r, .wake id, ⟨hhandles.run, hbusy, hmono hturn, rfl,
              fun hr => absurd hr hhandles.handled, fun _ => ⟨_, rfl, r, hhandles.event, hmono hturn⟩⟩⟩⟩
          · refine absurd hbusy (hidle r ?_)
            rw [namedRun_eq hhandles.session]
            exact hhandles.run
  | restarted _ _ hview _ _ _ _ _ =>
      rw [hview] at hwake
      cases hwake

theorem Assessed.mono {parse : String → Option (Envelope Action)} {s t : State} {c : Completion}
    (h : s.Assessed parse c) (hmono : s.record ⊆ t.record) : t.Assessed parse c := by
  obtain ⟨r, prompt, hr, hturn, hprompt⟩ := h.turn
  exact ⟨h.reply, h.shown, h.delivered, h.settled, r, prompt, hr, hmono hturn, hprompt.mono hmono⟩

theorem Woken.assessed_change {channel : String} {parse : String → Option (Envelope Action)}
    {s t : State} {a : Label Action} (h : s.Woken parse) (hchange : Change channel parse s a t)
    (c : Completion) (hc : .completed c ∈ t.record) : t.Assessed parse c := by
  have hmono := hchange.record_mono
  rcases hchange.adds hc with hold | ⟨x, r, hd, envelope, hhandles, hparse, hwake, hshown, hsent, hpending⟩
  · exact (h.assessed c hold).mono hmono
  · have hview := view_eq hhandles.session
    obtain ⟨-, ⟨r', prompt, hassessing⟩ | ⟨hidle, -⟩⟩ := h.awaited c.wake (by rw [hview]; exact hwake)
    · have hrun := hassessing.run
      rw [hview] at hrun
      obtain rfl := Option.some.inj (hhandles.run.symm.trans hrun)
      have hnone := hassessing.before hhandles.unhandled
      rw [hview] at hnone
      exact ⟨hhandles.kind, ⟨envelope, hparse, hshown⟩, hsent, hpending.trans hnone, r, prompt,
        hhandles.event, hmono hassessing.turn, hassessing.prompt.mono hmono⟩
    · refine absurd hhandles.busy (hidle r ?_)
      rw [namedRun_eq hhandles.session]
      exact hhandles.run

/-! ## Runs -/

/-- Wakes are completed by their own assessments; every other wake that was queued is open, and
pending from its next attempt on. -/
structure Answered (parse : String → Option (Envelope Action)) (s : State) : Prop where
  assessed : ∀ c, .completed c ∈ s.record → s.Assessed parse c ∧ ∀ r prompt,
    c.reply.run = some r → .turn r prompt ∈ s.record → s.Assesses c.wake prompt
  queued : ∀ id, .queued id ∈ s.record → ∃ row ∈ s.wakes, row.eventId = id
  kept : ∀ row ∈ s.wakes, (∃ c, .completed c ∈ s.record ∧ c.wake = row.eventId) ∨
    ∀ now, row.nextAttemptAt ≤ fmtTime now → row ∈ pendingWakes row.channel now s.wakes

theorem mem_pendingWakes {channel : String} {now : DateTime} {wakes : List WakeRow}
    {row : WakeRow} : row ∈ pendingWakes channel now wakes ↔ row ∈ wakes ∧
      row.channel = channel ∧ row.processedAt = none ∧ row.nextAttemptAt ≤ fmtTime now := by
  unfold pendingWakes
  rw [List.mem_insertionSort, List.mem_filter, decide_eq_true_eq]

theorem Woken.initial (parse : String → Option (Envelope Action)) (engine : String) :
    (initial engine).Woken parse := ⟨nofun, nofun, fun _ h => absurd h List.not_mem_nil⟩

theorem woken_of_reach {channel : String} {parse : String → Option (Envelope Action)} {s : State}
    (h : (system channel parse).Reach (Undisturbed channel) s) :
    s.Turned ∧ s.Kept ∧ s.Woken parse := by
  apply System.Reach.invariant_reach (P := fun s : State => s.Turned ∧ s.Kept ∧ s.Woken parse) _ _ h
  · rintro s ⟨engine, rfl⟩
    exact ⟨Turned.initial engine, ⟨fun _ h => absurd h List.not_mem_nil, List.forall_mem_nil _⟩,
      Woken.initial parse engine⟩
  · rintro s a t hreach ⟨hturned, hkept, hwoken⟩ hquiet hstep
    have hbase := base_of_reach (hreach.mono fun _ _ => And.left)
    have hchange := hbase.change hquiet.1 hstep
    exact ⟨hturned.change hchange, hkept.change hchange,
      ⟨hwoken.awaited_change hturned hquiet hchange, hwoken.drained_change hchange,
        hwoken.assessed_change hchange⟩⟩

/-- A worker's end that is to be assessed at once. -/
def workerRow : WakeRow :=
  ⟨⟨1#128⟩, 1, "telegram.7", ⟨2#128⟩, ⟨3#128⟩, .runCompleted, "", 0, "", none, none⟩

/-- One reply asks for an action. -/
def oneAction (text : String) : Option (Envelope Unit) :=
  some ⟨true, "done", [], if text = "act" then [()] else []⟩

/-- An assistant whose replies are read so. -/
def assistant : System State (Label Unit) := system "telegram.7" oneAction

/-- The output loop goes on. -/
def looping : Label Unit := .output (starting true) idleHandling

/-- A process answers, and its thread ends. -/
def answering (run : Run) (text : String) : List (Label Unit) :=
  .exits run (.completed none text) :: List.replicate 5 (.supervise run)

end State

end Stackhour.Claire
