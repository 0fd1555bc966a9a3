import Stackhour.Tracker.Ingest

/-!
# Machine-scoped tokens

The scope check reads the machine of the raw row and takes an empty one for
`unknown`; the store keeps an empty machine as it is, and trims and cuts that of
a status report. Where the two differ, a token writes rows of a machine that is
not its own.
-/

namespace Stackhour.Tracker

open Core Domain

/-- A request of a write route. -/
inductive Request where
  | ingest (body : Body)
  | agentStatus (body : Body)
  | wakatime (headers : Headers) (body : Body)

variable (fl : Floats) (lowercase : String → String)

def handle (db : Db) (principal : Principal) (now : F64) (sqlError : Option String) :
    Request → Db × Response
  | .ingest body => ingestHandler fl db principal body now sqlError
  | .agentStatus body => agentStatusHandler fl db principal body now sqlError
  | .wakatime headers body => wakatimeHandler fl lowercase db principal headers body now sqlError

/-- The machine under which the store keeps a heartbeat. -/
def storedMachine (row : Json) : String := jsStringOr fl (row.get "machine") "unknown"

/-- The machines to which the rows of a request resolve. -/
def resolves : Request → List String
  | .ingest (.json (.array rows)) => rows.map (storedMachine fl)
  | .agentStatus (.json (.object fields)) => [statusMachine fl (.object fields)]
  | .wakatime headers (.json v) =>
      (wakatimeItems v).map (fun h => storedMachine fl (fromWakatime fl lowercase h headers))
  | _ => []

/-- The rows of the other machines are what they were. -/
structure Confined (m : String) (before after : Db) : Prop where
  heartbeats : after.heartbeats.rows.filter (fun r => decide (r.machine ≠ m)) =
    before.heartbeats.rows.filter (fun r => decide (r.machine ≠ m))
  agentStatus : after.agentStatus.rows.filter (fun r => decide (r.machine ≠ m)) =
    before.agentStatus.rows.filter (fun r => decide (r.machine ≠ m))

/-- A token of machine `m` leaves the rows of other machines, and a request with a
row of another machine fails as a whole. -/
def StaysInScope (m : String) (r : Request) (before : Db) (out : Db × Response) : Prop :=
  Confined m before out.1 ∧
    ((∃ name ∈ resolves fl lowercase r, name ≠ m) → out.2.isSuccess = false ∧ out.1 = before)

/-- Where the check and the store read the same machine. The token of `unknown` is
sent no batch with an empty machine that passes; a status report of the token's own
machine is kept under that name, or not at all. -/
def ReadsAlike (m : String) : Request → Prop
  | .ingest (.json (.array rows)) =>
      m = "unknown" → (∀ row ∈ rows, rowMachine fl row = "unknown" ∨ rowMachine fl row = "") →
        ∀ row ∈ rows, rowMachine fl row ≠ ""
  | .agentStatus (.json (.object fields)) =>
      rowMachine fl (.object fields) = m → (reportedAt fl (.object fields)).isFinite = true →
        sliceUtf16 (String.ofList (jsTrim m.toList)) 200 = m ∨
          sliceUtf16 (String.ofList (jsTrim m.toList)) 200 = ""
  | _ => True

section Machines

variable {fl lowercase}

theorem Confined.refl (m : String) (db : Db) : Confined m db db := ⟨rfl, rfl⟩

theorem storedMachine_eq (row : Json) : storedMachine fl row = rowMachine fl row := rfl

/-- A name other than the empty one passes where it is the owner. -/
theorem allows_machine (m name : String) : allowsMachine (.machine m) (some name) = true ↔
    (name ≠ "" ∧ name = m) ∨ (name = "" ∧ m = "unknown") := by
  unfold allowsMachine
  by_cases hname : name = ""
  · subst hname
    constructor
    · intro h
      exact .inr ⟨rfl, (eq_of_beq h).symm⟩
    · rintro (⟨hne, -⟩ | ⟨-, rfl⟩)
      · exact absurd rfl hne
      · rfl
  · have hfilter : (some name).filter (fun m => m != "") = some name := by
      rw [Option.filter_some, if_pos (by simpa using hname)]
    dsimp only
    rw [hfilter, Option.getD_some, beq_iff_eq]
    constructor
    · intro h
      exact .inl ⟨hname, h⟩
    · rintro (⟨-, h⟩ | ⟨h, -⟩)
      · exact h
      · exact absurd h hname

/-- Rows stored under one machine leave the others. -/
theorem confined_insertRows {m : String} (now : F64) (db : Db) {rows : List Json}
    (h : ∀ row ∈ rows, storedMachine fl row = m) :
    Confined m db { db with heartbeats := (insertRows fl now db.heartbeats rows).1 } := by
  refine ⟨?_, rfl⟩
  obtain ⟨added, hrows, hadded⟩ := @insertRows_rows fl now db.heartbeats rows
  show (insertRows fl now db.heartbeats rows).1.rows.filter _ = _
  rw [hrows, List.filter_append]
  have hnone : added.filter (fun r => decide (r.machine ≠ m)) = [] := by
    refine List.filter_eq_nil_iff.mpr ?_
    intro r hr
    obtain ⟨row, hrow, time, -, rfl⟩ := hadded r hr
    have hm : (heartbeat fl now row time).machine = m := h row hrow
    rw [hm]
    simp
  rw [hnone, List.append_nil]

/-- The machine of a status report is that of the check, trimmed and cut, or
missing. -/
theorem statusMachine_eq (status : Json) :
    statusMachine fl status = sliceUtf16 (String.ofList (jsTrim (rowMachine fl status).toList)) 200 ∨
      (statusMachine fl status = "" ∧ rowMachine fl status = "unknown") := by
  have hempty : sliceUtf16 (String.ofList (jsTrim "".toList)) 200 = "" := by decide
  unfold statusMachine rowMachine jsStringOr
  cases status.get "machine" with
  | none => exact .inr ⟨hempty, rfl⟩
  | some v =>
      dsimp only
      split
      · exact .inl rfl
      · exact .inr ⟨hempty, rfl⟩

/-! ## The routes -/

/-- A request that fails and writes nothing. -/
theorem stays_of_refused {m : String} {r : Request} {db : Db} {res : Response}
    (hres : res.isSuccess = false) : StaysInScope fl lowercase m r db (db, res) :=
  ⟨.refl m db, fun _ => ⟨hres, rfl⟩⟩

theorem jsonError_refused {status : ℕ} (h : 400 ≤ status) (message : String) :
    (jsonError status message).isSuccess = false := by
  unfold Response.isSuccess jsonError
  rw [decide_eq_false_iff_not]
  dsimp only
  omega

theorem ingest_stays (m : String) (db : Db) (now : F64) (sqlError : Option String)
    (rows : List Json) :
    StaysInScope fl lowercase m (.ingest (.json (.array rows))) db
        (ingestHandler fl db (.machine m) (.json (.array rows)) now sqlError) ↔
      (sqlError = none → ReadsAlike fl m (.ingest (.json (.array rows)))) := by
  unfold ingestHandler readJson
  dsimp only
  split
  · next hdenied =>
      refine iff_of_true (stays_of_refused (jsonError_refused (by decide) _)) ?_
      intro _ hm hall
      -- all of these rows would have passed
      obtain ⟨row, hrow, hno⟩ := List.any_eq_true.mp hdenied
      rw [Bool.not_eq_true', ← Bool.not_eq_true, allows_machine] at hno
      rcases hall row hrow with h | h
      · exact absurd (.inl ⟨h ▸ by decide, h.trans hm.symm⟩) hno
      · exact absurd (.inr ⟨h, hm⟩) hno
  · next hpass =>
      have hallowed : ∀ row ∈ rows, (rowMachine fl row ≠ "" ∧ rowMachine fl row = m) ∨
          (rowMachine fl row = "" ∧ m = "unknown") := by
        intro row hrow
        rw [← allows_machine]
        by_contra hno
        refine hpass (List.any_eq_true.mpr ⟨row, hrow, ?_⟩)
        rw [Bool.not_eq_true', ← Bool.not_eq_true]
        exact hno
      cases sqlError with
      | some e =>
          exact iff_of_true (stays_of_refused (jsonError_refused (by decide) _)) (by rintro ⟨⟩)
      | none =>
          constructor
          · intro hstays _ hm hall row hrow hempty
            -- a row with an empty machine was taken
            have hfail := hstays.2 ⟨storedMachine fl row, List.mem_map_of_mem hrow, by
              rw [storedMachine_eq, hempty, hm]
              decide⟩
            cases hfail.1
          · intro hreads
            have hown : ∀ row ∈ rows, storedMachine fl row = m := by
              intro row hrow
              rcases hallowed row hrow with ⟨-, h⟩ | ⟨h, hm⟩
              · exact h
              · refine absurd h (hreads rfl hm ?_ row hrow)
                intro row' hrow'
                rcases hallowed row' hrow' with ⟨-, h'⟩ | ⟨h', -⟩
                · exact .inl (h'.trans hm)
                · exact .inr h'
            refine ⟨confined_insertRows now db hown, ?_⟩
            rintro ⟨name, hname, hne⟩
            obtain ⟨row, hrow, rfl⟩ := List.mem_map.mp hname
            exact absurd (hown row hrow) hne

theorem agentStatus_stays (m : String) (db : Db) (now : F64) (sqlError : Option String)
    (fields : List (String × Json)) :
    StaysInScope fl lowercase m (.agentStatus (.json (.object fields))) db
        (agentStatusHandler fl db (.machine m) (.json (.object fields)) now sqlError) ↔
      (sqlError = none → ReadsAlike fl m (.agentStatus (.json (.object fields)))) := by
  have hunknown : sliceUtf16 (String.ofList (jsTrim "unknown".toList)) 200 = "unknown" := by decide
  have hempty : sliceUtf16 (String.ofList (jsTrim "".toList)) 200 = "" := by decide
  unfold agentStatusHandler readJson ReadsAlike
  dsimp only
  obtain ⟨status, hstatus⟩ : ∃ status, Json.object fields = status := ⟨_, rfl⟩
  rw [hstatus]
  have hmachine := @statusMachine_eq fl status
  have hresolves : resolves fl lowercase (.agentStatus (.json status)) =
      [statusMachine fl status] := by
    rw [← hstatus]
    rfl
  split
  · next hdenied =>
      refine iff_of_true (stays_of_refused (jsonError_refused (by decide) _)) ?_
      intro _ hm _
      -- a machine of the token's own name is denied only if it is empty
      rw [Bool.not_eq_true', ← Bool.not_eq_true, allows_machine] at hdenied
      by_cases hname : m = ""
      · refine .inr ?_
        rw [hname]
        exact hempty
      · refine absurd (.inl ⟨?_, hm⟩) hdenied
        rwa [hm]
  · next hpass =>
      rw [Bool.not_eq_true', Bool.not_eq_false, allows_machine] at hpass
      unfold upsertAgentStatus
      by_cases hvalid : statusMachine fl status = "" ∨ (reportedAt fl status).isFinite = false
      · rw [if_pos hvalid]
        refine iff_of_true (stays_of_refused (jsonError_refused (by decide) _)) ?_
        intro _ hm hfinite
        rcases hvalid with hnone | hinfinite
        · rcases hmachine with h | ⟨-, h⟩
          · rw [hm] at h
            exact .inr (h.symm.trans hnone)
          · rw [← hm, h]
            exact .inl hunknown
        · rw [hfinite] at hinfinite
          cases hinfinite
      · rw [if_neg hvalid]
        rw [not_or, Bool.not_eq_false] at hvalid
        have hread : statusMachine fl status =
            sliceUtf16 (String.ofList (jsTrim (rowMachine fl status).toList)) 200 := by
          rcases hmachine with h | ⟨h, -⟩
          · exact h
          · exact absurd h hvalid.1
        have hm : rowMachine fl status = m := by
          rcases hpass with ⟨-, h⟩ | ⟨h, -⟩
          · exact h
          · rw [h, hempty] at hread
            exact absurd hread hvalid.1
        rw [hm] at hread
        cases sqlError with
        | some e =>
            exact iff_of_true (stays_of_refused (jsonError_refused (by decide) _)) (by rintro ⟨⟩)
        | none =>
            constructor
            · intro hstays _ _ _
              by_contra hdiffers
              rw [not_or, ← hread] at hdiffers
              have hfail := hstays.2 ⟨_, hresolves ▸ List.mem_singleton_self _, hdiffers.1⟩
              cases hfail.1
            · intro hreads
              have hown : statusMachine fl status = m := by
                rcases hreads rfl hm hvalid.2 with h | h
                · exact hread.trans h
                · exact absurd (hread.trans h) hvalid.1
              refine ⟨⟨rfl, ?_⟩, ?_⟩
              · have hothers := db.agentStatus.upsert_others (agentStatus fl status now)
                rwa [show (agentStatus fl status now).machine = m from hown] at hothers
              · rintro ⟨name, hname, hne⟩
                rw [hresolves] at hname
                exact absurd ((List.mem_singleton.mp hname).trans hown) hne

theorem machineHeader_ne (headers : Headers) : machineHeader headers ≠ "" := by
  unfold machineHeader
  cases h : headers.machineName.filter (fun v => v != "") with
  | none => decide
  | some v =>
      have hv := (Option.filter_eq_some_iff.mp h).2
      simpa using hv

theorem storedMachine_fromWakatime (h : Json) (headers : Headers) :
    storedMachine fl (fromWakatime fl lowercase h headers) = machineHeader headers := by
  have hget : (fromWakatime fl lowercase h headers).get "machine" =
      some (.string (machineHeader headers)) := rfl
  unfold storedMachine jsStringOr
  rw [hget]
  dsimp only
  rw [if_pos (by simpa [jsTruthy] using machineHeader_ne headers), jsDisplay]

theorem wakatime_stays (m : String) (db : Db) (now : F64) (sqlError : Option String)
    (headers : Headers) (v : Json) :
    StaysInScope fl lowercase m (.wakatime headers (.json v)) db
      (wakatimeHandler fl lowercase db (.machine m) headers (.json v) now sqlError) := by
  unfold wakatimeHandler readJson
  dsimp only
  split
  · exact stays_of_refused (jsonError_refused (by decide) _)
  · next hpass =>
      split
      · exact stays_of_refused (jsonError_refused (by decide) _)
      · cases sqlError with
        | some e => exact stays_of_refused (jsonError_refused (by decide) _)
        | none =>
            rw [Bool.not_eq_true', Bool.not_eq_false, allows_machine] at hpass
            have hm : machineHeader headers = m := by
              rcases hpass with ⟨-, h⟩ | ⟨h, -⟩
              · exact h
              · exact absurd h (machineHeader_ne headers)
            refine ⟨confined_insertRows now db ?_, ?_⟩
            · intro row hrow
              obtain ⟨h, -, rfl⟩ := List.mem_map.mp hrow
              exact (storedMachine_fromWakatime h headers).trans hm
            · rintro ⟨name, hname, hne⟩
              obtain ⟨h, -, rfl⟩ := List.mem_map.mp hname
              exact absurd ((storedMachine_fromWakatime h headers).trans hm) hne

end Machines

/-- **A token stays in its scope** where the check and the store read the same
machine, or the database fails. -/
theorem stays_in_scope (m : String) (r : Request) (db : Db) (now : F64)
    (sqlError : Option String) :
    StaysInScope fl lowercase m r db (handle fl lowercase db (.machine m) now sqlError r) ↔
      (sqlError = none → ReadsAlike fl m r) := by
  have hrefused : ∀ {status : ℕ} (message : String), 400 ≤ status →
      (StaysInScope fl lowercase m r db (db, jsonError status message) ↔
        (sqlError = none → True)) := fun message h =>
    iff_of_true (stays_of_refused (jsonError_refused h message)) fun _ => trivial
  cases r with
  | ingest body =>
      cases body with
      | tooLarge => exact hrefused _ (by decide)
      | invalid => exact hrefused _ (by decide)
      | json v =>
          cases v with
          | array rows => exact ingest_stays m db now sqlError rows
          | _ => exact hrefused _ (by decide)
  | agentStatus body =>
      cases body with
      | tooLarge => exact hrefused _ (by decide)
      | invalid => exact hrefused _ (by decide)
      | json v =>
          cases v with
          | object fields => exact agentStatus_stays m db now sqlError fields
          | _ => exact hrefused _ (by decide)
  | wakatime headers body =>
      cases body with
      | tooLarge => exact hrefused _ (by decide)
      | invalid => exact hrefused _ (by decide)
      | json v => exact iff_of_true (wakatime_stays m db now sqlError headers v) fun _ => trivial

/-- The token of `unknown` stores a row under the empty machine. -/
theorem empty_machine_stored : ∃ (fl : Floats) (r : Request) (db : Db) (now : F64),
    ¬ StaysInScope fl id "unknown" r db (handle fl id db (.machine "unknown") now none r) := by
  refine ⟨⟨fun _ => F64.one, fun _ => 0, id, fun _ => true, fun f _ => f, fun _ => "1",
    fun _ => F64.nan⟩,
    .ingest (.json (.array [.object [("time", .number (.int 1)), ("machine", .array [])]])),
    ⟨.empty, .empty⟩, F64.one, ?_⟩
  intro h
  have hconfined := h.1.heartbeats
  exact absurd (congrArg List.length hconfined) (by decide)

end Stackhour.Tracker
