import Stackhour.Domain.WireSpec
import Stackhour.Hub.Settings

/-!
# Settings are kept

Over every run of calls the table stands for what the successful ones wanted: a setting that was
saved is read back, and only another save of it changes it.
-/

namespace Stackhour.Hub.Settings

open Core Domain Records Wire

variable {cr : Crates} {ft : JsonGrammar.FloatText} {tx : Texts}

/-! ## What is wanted -/

/-- The settings as they were last saved. -/
structure Wanted where
  assistant : Option AssistantSettings
  updates : Option UpdateSettings
  sessions : String → Option AssistantSession
  channel : Option String

def Wanted.empty : Wanted := ⟨none, none, fun _ => none, none⟩

/-- What a call is for. -/
def Call.want (w : Wanted) : Call → Wanted
  | .saveAssistant s => { w with assistant := some s }
  | .initializeAssistant s => { w with assistant := some (w.assistant.getD s) }
  | .saveUpdates s => { w with updates := some s }
  | .saveSession channel s =>
      { w with sessions := Function.update w.sessions channel (some s) }
  | .clearSession channel => { w with sessions := Function.update w.sessions channel none }
  | .setChannel channel => { w with channel := some channel }

/-- The check of what a call is to keep. -/
def Call.check : Call → Except String Unit
  | .saveAssistant s | .initializeAssistant s => s.validate
  | .saveUpdates s => s.validate
  | .saveSession _ _ | .clearSession _ => .ok ()
  | .setChannel channel => validateIdentifier "assistant channel" channel

/-- A call, which is for nothing where it fails. -/
def Call.step (cr : Crates) (ft : JsonGrammar.FloatText) (tx : Texts) (p : Table × Wanted)
    (c : Call × Faults) : Table × Wanted :=
  match c.1.run cr ft tx p.1 c.2 with
  | (t, .ok ()) => (t, c.1.want p.2)
  | (t, .error _) => (t, p.2)

/-! ## Values are read back -/

theorem u16_reads (n : UInt16) : u16.Reads n := by
  have hn := n.toNat_lt
  have hwide : Wide (n.toNat : ℤ) := ⟨by omega, by omega⟩
  unfold Codec.Reads u16 Json.asI64
  dsimp only
  unfold Wide at hwide
  rw [if_pos hwide, Option.filter_some, if_pos (decide_eq_true ⟨by omega, by omega⟩),
    Option.map_some, Int.toNat_natCast, UInt16.ofNat_toNat]

@[simp] theorem u16_fits (n : UInt16) {depth : ℕ} : (u16.enc n).Fits depth := by
  have hn := n.toNat_lt
  refine .number ⟨?_, ?_⟩ <;> omega

theorem assistantSlots_nodup (s : AssistantSettings) : ((assistantSlots s).map Slot.key).Nodup := by
  simp [assistantSlots, Slot.key]

theorem assistant_reads (s : AssistantSettings) : assistant.Reads s := by
  apply Carried.reads
  apply Carried.of_slots _ (assistantSlots_nodup s) (List.Subset.refl _)
  · intro fields hread
    simp only [assistantSlots, List.forall_mem_cons, Slot.Read] at hread
    simp [readAssistant, hread, Wire.option]
  · simp [assistantSlots, Slot.Ok]

theorem assistant_fits (s : AssistantSettings) {depth : ℕ} :
    (assistant.enc s).Fits (depth + 1) := by
  apply object_fits (assistantSlots_nodup s)
  simp only [assistantSlots, List.forall_mem_cons]
  refine ⟨?_, ?_, ?_, nullable_fits string_fits, nullable_fits string_fits, ?_,
    nullable_fits string_fits, ?_, nullable_fits string_fits, nullable_fits string_fits, ?_⟩ <;>
    simp [Slot.value]

theorem updateSlots_nodup (s : UpdateSettings) : ((updateSlots s).map Slot.key).Nodup := by
  simp [updateSlots, Slot.key]

theorem update_reads (s : UpdateSettings) : update.Reads s := by
  apply Carried.reads
  apply Carried.of_slots _ (updateSlots_nodup s) (List.Subset.refl _)
  · intro fields hread
    simp only [updateSlots, List.forall_mem_cons, Slot.Read] at hread
    simp [readUpdate, hread]
  · simp [updateSlots, Slot.Ok, u16_reads]

theorem update_fits (s : UpdateSettings) {depth : ℕ} : (update.enc s).Fits (depth + 1) := by
  apply object_fits (updateSlots_nodup s)
  simp [updateSlots, Slot.value]

theorem sessionSlots_nodup (s : AssistantSession) :
    ((sessionSlots cr s).map Slot.key).Nodup := by
  simp [sessionSlots, Slot.key]

theorem flagOrFalse_of_required {k : String} {fields : Fields} {b : Bool}
    (h : required bool k fields = some b) : flagOrFalse k fields = some b := by
  obtain ⟨v, hv, hb⟩ := Option.bind_eq_some_iff.mp h
  unfold flagOrFalse
  rw [hv]
  exact hb

theorem session_reads (hcr : cr.Lawful) (s : AssistantSession) : (session cr).Reads s := by
  apply Carried.reads
  apply Carried.of_slots _ (sessionSlots_nodup s) (List.Subset.refl _)
  · intro fields hread
    simp only [sessionSlots, List.forall_mem_cons, Slot.Read] at hread
    obtain ⟨htask, hrun, hengine, hprovider, hwake, hfollowUp, hflag, -⟩ := hread
    simp [readSession, Wire.option, htask, hrun, hengine, hprovider, hwake, hfollowUp,
      flagOrFalse_of_required hflag]
  · simp [sessionSlots, Slot.Ok, taskId_reads hcr, runId_reads hcr, eventId_reads hcr]

theorem session_fits (s : AssistantSession) {depth : ℕ} :
    ((session cr).enc s).Fits (depth + 1) := by
  apply object_fits (sessionSlots_nodup s)
  simp only [sessionSlots, List.forall_mem_cons]
  refine ⟨?_, nullable_fits runId_fits, ?_⟩ <;> simp [Slot.value]

/-! ## The defaults -/

/-- A text of some length without control characters that is not blank. -/
structure Clear (s : String) (n : ℕ) : Prop where
  control : s.toList.any isControl = false
  blank : s.toList.all isWhitespace = false
  length : s.toList.length = n

theorem clear_ofList (cs : List Char) (hcontrol : cs.any isControl = false)
    (hblank : cs.all isWhitespace = false) : Clear (String.ofList cs) cs.length := by
  refine ⟨?_, ?_, ?_⟩ <;> rw [String.toList_ofList]
  · exact hcontrol
  · exact hblank

theorem Clear.append {s t : String} {m n : ℕ} (h : Clear s m) (h' : Clear t n) :
    Clear (s ++ t) (m + n) := by
  refine ⟨?_, ?_, ?_⟩ <;> rw [String.toList_append]
  · rw [List.any_append, h.control, h'.control]
    rfl
  · rw [List.all_append, h.blank, Bool.false_and]
  · rw [List.length_append, h.length, h'.length]

theorem Clear.valid {s : String} {n max : ℕ} (h : Clear s n) (hn : n ≤ max) (label : String) :
    validateText label s max = .ok () := by
  unfold validateText
  rw [h.blank, h.control, h.length, Bool.or_false]
  simp only [Bool.false_eq_true, if_false, decide_eq_true_eq, not_lt.mpr hn]

theorem personality_clear : ∃ n ≤ 16000, Clear CLAIRE_PERSONALITY n :=
  -- the parts are short enough to be read as lists of characters
  ⟨_, by decide, ((((clear_ofList _ (by decide) (by decide)).append
    (clear_ofList _ (by decide) (by decide))).append (clear_ofList _ (by decide) (by decide))).append
    (clear_ofList _ (by decide) (by decide))).append (clear_ofList _ (by decide) (by decide))⟩

theorem assistant_default_valid : AssistantSettings.default.validate = .ok () := by
  obtain ⟨n, hn, hclear⟩ := personality_clear
  show (validateText "name" "Claire" 40 >>= fun _ =>
    validateText "personality" CLAIRE_PERSONALITY 16000 >>= fun _ => _) = _
  rw [hclear.valid hn]
  decide

theorem update_default_valid : UpdateSettings.default.validate = .ok () := by
  decide

/-! ## Keys -/

theorem sessionKey_inj {a b : String} (h : sessionKey a = sessionKey b) : a = b := by
  have hlist := congrArg String.toList h
  unfold sessionKey at hlist
  rw [String.toList_append, String.toList_append] at hlist
  exact String.toList_injective (List.append_cancel_left hlist)

/-- The key of a session is no other setting's. -/
theorem sessionKey_ne (channel : String) : sessionKey channel ≠ ASSISTANT_SETTINGS_KEY ∧
    sessionKey channel ≠ UPDATE_SETTINGS_KEY ∧ sessionKey channel ≠ ACTIVE_CHANNEL_KEY := by
  have hhead : (sessionKey channel).toList.take 18 = "assistant.session.".toList := by
    unfold sessionKey
    rw [String.toList_append]
    exact List.take_left' (by decide)
  refine ⟨?_, ?_, ?_⟩ <;>
    · intro h
      rw [h] at hhead
      exact absurd hhead (by decide)

theorem keys_ne : ASSISTANT_SETTINGS_KEY ≠ UPDATE_SETTINGS_KEY ∧
    ASSISTANT_SETTINGS_KEY ≠ ACTIVE_CHANNEL_KEY ∧ UPDATE_SETTINGS_KEY ≠ ACTIVE_CHANNEL_KEY := by
  decide

/-! ## What the table stands for -/

/-- The text of a value. -/
def textOf (ft : JsonGrammar.FloatText) {α : Type} (c : Codec Json α) (a : α) : List Char :=
  JsonGrammar.compact ft (c.enc a)

/-- The text of a session, which is null once it was cleared. -/
def SessionText (cr : Crates) (ft : JsonGrammar.FloatText) (text : Option (List Char)) :
    Option AssistantSession → Prop
  | none => text = none ∨ text = some (JsonGrammar.compact ft .null)
  | some s => text = some (textOf ft (session cr) s)

/-- The table holds the wanted settings, all of which pass their checks. -/
structure Represents (cr : Crates) (ft : JsonGrammar.FloatText) (t : Table) (w : Wanted) :
    Prop where
  assistant : t ASSISTANT_SETTINGS_KEY = w.assistant.map (textOf ft Settings.assistant)
  assistantValid : ∀ s ∈ w.assistant, s.validate = .ok ()
  updates : t UPDATE_SETTINGS_KEY = w.updates.map (textOf ft update)
  updatesValid : ∀ s ∈ w.updates, s.validate = .ok ()
  sessions : ∀ channel, SessionText cr ft (t (sessionKey channel)) (w.sessions channel)
  channel : t ACTIVE_CHANNEL_KEY = w.channel.map (textOf ft string)
  channelValid : ∀ c ∈ w.channel, validateIdentifier "assistant channel" c = .ok ()

namespace Represents

variable {t : Table} {w : Wanted}

theorem putAssistant (h : Represents cr ft t w) {s : AssistantSettings}
    (hs : s.validate = .ok ()) :
    Represents cr ft
      (Function.update t ASSISTANT_SETTINGS_KEY (some (textOf ft Settings.assistant s)))
      { w with assistant := some s } where
  assistant := Function.update_self ..
  assistantValid := by
    rintro _ ⟨rfl⟩
    exact hs
  updates := (Function.update_of_ne keys_ne.1.symm ..).trans h.updates
  updatesValid := h.updatesValid
  sessions channel := by
    rw [Function.update_of_ne (sessionKey_ne channel).1]
    exact h.sessions channel
  channel := (Function.update_of_ne keys_ne.2.1.symm ..).trans h.channel
  channelValid := h.channelValid

theorem putUpdates (h : Represents cr ft t w) {s : UpdateSettings} (hs : s.validate = .ok ()) :
    Represents cr ft (Function.update t UPDATE_SETTINGS_KEY (some (textOf ft update s)))
      { w with updates := some s } where
  assistant := (Function.update_of_ne keys_ne.1 ..).trans h.assistant
  assistantValid := h.assistantValid
  updates := Function.update_self ..
  updatesValid := by
    rintro _ ⟨rfl⟩
    exact hs
  sessions channel := by
    rw [Function.update_of_ne (sessionKey_ne channel).2.1]
    exact h.sessions channel
  channel := (Function.update_of_ne keys_ne.2.2.symm ..).trans h.channel
  channelValid := h.channelValid

theorem putChannel (h : Represents cr ft t w) {c : String}
    (hc : validateIdentifier "assistant channel" c = .ok ()) :
    Represents cr ft (Function.update t ACTIVE_CHANNEL_KEY (some (textOf ft string c)))
      { w with channel := some c } where
  assistant := (Function.update_of_ne keys_ne.2.1 ..).trans h.assistant
  assistantValid := h.assistantValid
  updates := (Function.update_of_ne keys_ne.2.2 ..).trans h.updates
  updatesValid := h.updatesValid
  sessions channel := by
    rw [Function.update_of_ne (sessionKey_ne channel).2.2]
    exact h.sessions channel
  channel := Function.update_self ..
  channelValid := by
    rintro _ ⟨rfl⟩
    exact hc

theorem putSession (h : Represents cr ft t w) (channel : String) {text : List Char}
    {s : Option AssistantSession} (hs : SessionText cr ft (some text) s) :
    Represents cr ft (Function.update t (sessionKey channel) (some text))
      { w with sessions := Function.update w.sessions channel s } where
  assistant := (Function.update_of_ne (sessionKey_ne channel).1.symm ..).trans h.assistant
  assistantValid := h.assistantValid
  updates := (Function.update_of_ne (sessionKey_ne channel).2.1.symm ..).trans h.updates
  updatesValid := h.updatesValid
  sessions other := by
    dsimp only
    by_cases hother : other = channel
    · rw [hother, Function.update_self, Function.update_self]
      exact hs
    · rw [Function.update_of_ne hother,
        Function.update_of_ne fun hkey => hother (sessionKey_inj hkey)]
      exact h.sessions other
  channel := (Function.update_of_ne (sessionKey_ne channel).2.2.symm ..).trans h.channel
  channelValid := h.channelValid

end Represents

/-! ## Reading -/

theorem getSetting_text (hft : ft.Lawful) {t : Table} {key : String} {v : Json}
    (h : t key = some (JsonGrammar.compact ft v)) (hv : v.Fits 127) :
    getSetting ft tx t key none = .ok (some v) := by
  unfold getSetting
  rw [h]
  dsimp only
  rw [JsonGrammar.parse_compact hft hv]

theorem getSetting_none {t : Table} {key : String} (h : t key = none) :
    getSetting ft tx t key none = .ok none := by
  unfold getSetting
  rw [h]

theorem readChecked_eq (hft : ft.Lawful) {α : Type} {c : Codec Json α}
    {validate : α → Except String Unit} {default : α} {key label : String} {t : Table}
    {o : Option α} (h : t key = o.map (textOf ft c))
    (ho : ∀ a ∈ o, c.Reads a ∧ (c.enc a).Fits 127 ∧ validate a = .ok ()) :
    readChecked ft tx c validate default key label t none = .ok (o.getD default) := by
  unfold readChecked
  cases o with
  | none =>
      rw [getSetting_none h]
      rfl
  | some a =>
      obtain ⟨hreads, hfits, hvalid⟩ := ho a rfl
      rw [getSetting_text hft h hfits]
      show (fromValue tx c label (c.enc a) >>= fun a => validate a >>= fun _ => pure a) = .ok a
      unfold fromValue
      rw [hreads]
      show (validate a >>= fun _ => pure a) = .ok a
      rw [hvalid]
      rfl

/-- A name that passed is not blank. -/
theorem not_blank_of_valid {label value : String} (h : validateIdentifier label value = .ok ()) :
    value.toList.all isWhitespace = false := by
  obtain ⟨_, htext, -⟩ := Result.bind_eq_ok.mp h
  unfold validateText at htext
  by_contra hblank
  rw [if_pos (Bool.eq_true_of_not_eq_false hblank)] at htext
  cases htext

variable {t : Table} {w : Wanted}

theorem Represents.readAssistantSettings (hft : ft.Lawful) (h : Represents cr ft t w) :
    assistantSettings ft tx t none = .ok (w.assistant.getD .default) :=
  readChecked_eq hft h.assistant fun s hs =>
    ⟨assistant_reads s, assistant_fits s, h.assistantValid s hs⟩

theorem Represents.readUpdateSettings (hft : ft.Lawful) (h : Represents cr ft t w) :
    updateSettings ft tx t none = .ok (w.updates.getD .default) :=
  readChecked_eq hft h.updates fun s hs => ⟨update_reads s, update_fits s, h.updatesValid s hs⟩

theorem Represents.readAssistantSession (hcr : cr.Lawful) (hft : ft.Lawful)
    (h : Represents cr ft t w) (channel : String) :
    assistantSession cr ft tx channel t none = .ok (w.sessions channel) := by
  have htext := h.sessions channel
  unfold assistantSession
  cases hs : w.sessions channel with
  | none =>
      rw [hs] at htext
      rcases htext with htext | htext
      · rw [getSetting_none htext]
        rfl
      · rw [getSetting_text hft htext .null]
        rfl
  | some s =>
      rw [hs] at htext
      rw [getSetting_text hft htext (session_fits s)]
      show (fromValue tx (session cr) "assistant session" ((session cr).enc s)).map some = _
      unfold fromValue
      rw [session_reads hcr s]
      rfl

theorem Represents.readActiveAssistantChannel (hft : ft.Lawful) (h : Represents cr ft t w) :
    activeAssistantChannel ft tx t none = .ok w.channel := by
  have htext := h.channel
  unfold activeAssistantChannel
  cases hc : w.channel with
  | none =>
      rw [hc] at htext
      rw [getSetting_none htext]
      rfl
  | some c =>
      rw [hc] at htext
      rw [getSetting_text hft htext (string_fits c)]
      have hblank := not_blank_of_valid (h.channelValid c hc)
      show Except.ok ((some c).filter fun s => !s.toList.all isWhitespace) = _
      rw [Option.filter_some, hblank]
      rfl

/-! ## Runs -/

theorem putSetting_cases (t : Table) (key : String) (v : Json) (fault : Option String) :
    (∃ e, putSetting ft t key v fault = (t, .error e)) ∨
      putSetting ft t key v fault =
        (Function.update t key (some (JsonGrammar.compact ft v)), .ok ()) := by
  cases fault with
  | some e => exact .inl ⟨e, rfl⟩
  | none => exact .inr rfl

theorem saveChecked_cases {α : Type} (c : Codec Json α) (validate : α → Except String Unit)
    (key : String) (a : α) (t : Table) (fault : Option String) :
    (∃ e, saveChecked ft c validate key a t fault = (t, .error e)) ∨
      (validate a = .ok () ∧ saveChecked ft c validate key a t fault =
        (Function.update t key (some (textOf ft c a)), .ok ())) := by
  unfold saveChecked
  rcases hvalid : validate a with e | _
  · exact .inl ⟨e, rfl⟩
  · exact (putSetting_cases t key (c.enc a) fault).imp id fun hput => ⟨rfl, hput⟩

theorem initialize_cases (hft : ft.Lawful) (h : Represents cr ft t w) (s : AssistantSettings)
    (f : Faults) :
    (∃ e, initializeAssistantSettings ft tx s t f = (t, .error e)) ∨
      (w.assistant.isSome = true ∧ initializeAssistantSettings ft tx s t f = (t, .ok ())) ∨
      (w.assistant = none ∧ s.validate = .ok () ∧ initializeAssistantSettings ft tx s t f =
        (Function.update t ASSISTANT_SETTINGS_KEY (some (textOf ft assistant s)), .ok ())) := by
  unfold initializeAssistantSettings
  rcases hvalid : s.validate with e | _
  · exact .inl ⟨e, rfl⟩
  cases hread : f.read with
  | some e => exact .inl ⟨e, rfl⟩
  | none =>
      have htext := h.assistant
      cases hw : w.assistant with
      | some kept =>
          rw [hw] at htext
          rw [getSetting_text hft htext (assistant_fits kept)]
          exact .inr (.inl ⟨rfl, rfl⟩)
      | none =>
          rw [hw] at htext
          rw [getSetting_none htext]
          rcases @putSetting_cases ft t ASSISTANT_SETTINGS_KEY (assistant.enc s) f.write with
            ⟨e, hput⟩ | hput
          · exact .inl ⟨e, hput⟩
          · exact .inr (.inr ⟨rfl, rfl, hput⟩)

/-- A call that leaves the table when it fails, and else does what it is for. -/
theorem step_represents_of {p : Table × Wanted} (h : Represents cr ft p.1 p.2) {c : Call}
    {f : Faults} {t' : Table} (hrun : (∃ e, c.run cr ft tx p.1 f = (p.1, .error e)) ∨
      (c.run cr ft tx p.1 f = (t', .ok ()) ∧ Represents cr ft t' (c.want p.2))) :
    Represents cr ft (Call.step cr ft tx p (c, f)).1 (Call.step cr ft tx p (c, f)).2 := by
  unfold Call.step
  dsimp only
  rcases hrun with ⟨e, hrun⟩ | ⟨hrun, hwant⟩
  · rw [hrun]
    exact h
  · rw [hrun]
    exact hwant

theorem step_represents (hft : ft.Lawful) {p : Table × Wanted} (h : Represents cr ft p.1 p.2)
    (c : Call × Faults) :
    Represents cr ft (Call.step cr ft tx p c).1 (Call.step cr ft tx p c).2 := by
  obtain ⟨c, f⟩ := c
  cases c with
  | saveAssistant s =>
      exact step_represents_of h ((saveChecked_cases _ _ _ s p.1 f.write).imp id
        fun hsaved => ⟨hsaved.2, h.putAssistant hsaved.1⟩)
  | saveUpdates s =>
      exact step_represents_of h ((saveChecked_cases _ _ _ s p.1 f.write).imp id
        fun hsaved => ⟨hsaved.2, h.putUpdates hsaved.1⟩)
  | setChannel channel =>
      exact step_represents_of h ((saveChecked_cases _ _ _ channel p.1 f.write).imp id
        fun hsaved => ⟨hsaved.2, h.putChannel hsaved.1⟩)
  | saveSession channel s =>
      exact step_represents_of h ((putSetting_cases p.1 _ _ f.write).imp id
        fun hput => ⟨hput, h.putSession channel (s := some s) rfl⟩)
  | clearSession channel =>
      exact step_represents_of h ((putSetting_cases p.1 _ _ f.write).imp id
        fun hput => ⟨hput, h.putSession channel (s := none) (.inr rfl)⟩)
  | initializeAssistant s =>
      rcases @initialize_cases _ _ tx _ _ hft h s f with hfailed | ⟨hkept, hrun⟩ | ⟨hnone, hs, hrun⟩
      · exact @step_represents_of _ _ _ _ h _ _ p.1 (.inl hfailed)
      · obtain ⟨kept, hkept⟩ := Option.isSome_iff_exists.mp hkept
        refine step_represents_of h (.inr ⟨hrun, ?_⟩)
        have hsame : (Call.initializeAssistant s).want p.2 = p.2 := by
          show { p.2 with assistant := some (p.2.assistant.getD s) } = p.2
          rw [hkept, Option.getD_some, ← hkept]
        rw [hsame]
        exact h
      · refine step_represents_of h (.inr ⟨hrun, ?_⟩)
        have hnew : (Call.initializeAssistant s).want p.2 = { p.2 with assistant := some s } := by
          show { p.2 with assistant := some (p.2.assistant.getD s) } = _
          rw [hnone, Option.getD_none]
        rw [hnew]
        exact h.putAssistant hs

theorem run_represents (hft : ft.Lawful) (calls : List (Call × Faults)) {p : Table × Wanted}
    (h : Represents cr ft p.1 p.2) :
    Represents cr ft (calls.foldl (Call.step cr ft tx) p).1
      (calls.foldl (Call.step cr ft tx) p).2 := by
  induction calls generalizing p with
  | nil => exact h
  | cons c calls ih => exact ih (step_represents hft h c)

theorem represents_empty : Represents cr ft (fun _ => none) .empty where
  assistant := rfl
  assistantValid := nofun
  updates := rfl
  updatesValid := nofun
  sessions _ := .inl rfl
  channel := rfl
  channelValid := nofun

theorem saveChecked_result {α : Type} (c : Codec Json α) (validate : α → Except String Unit)
    (key : String) (a : α) (t : Table) :
    (saveChecked ft c validate key a t none).2 = validate a := by
  unfold saveChecked
  rcases validate a with e | _
  · rfl
  · rfl

/-- Where no statement fails the check decides. -/
theorem Represents.result (hft : ft.Lawful) (h : Represents cr ft t w) (tx : Texts) (c : Call) :
    (c.run cr ft tx t ⟨none, none⟩).2 = c.check := by
  cases c with
  | saveAssistant s => exact saveChecked_result ..
  | saveUpdates s => exact saveChecked_result ..
  | setChannel channel => exact saveChecked_result ..
  | saveSession channel s => rfl
  | clearSession channel => rfl
  | initializeAssistant s =>
      have htext := h.assistant
      show (initializeAssistantSettings ft tx s t ⟨none, none⟩).2 = s.validate
      unfold initializeAssistantSettings
      rcases s.validate with e | _
      · rfl
      cases hw : w.assistant with
      | some kept =>
          rw [hw] at htext
          rw [getSetting_text hft htext (assistant_fits kept)]
      | none =>
          rw [hw] at htext
          rw [getSetting_none htext]
          rfl

/-- **Settings are kept**: after any calls, whichever of them fail, each setting is read as it was
last saved, and a setting that was never saved as its default; what is read passes its checks, and a
call that no statement of fails is refused by its check alone. -/
theorem settings_kept (hcr : cr.Lawful) (hft : ft.Lawful) (tx : Texts)
    (calls : List (Call × Faults)) :
    let p := calls.foldl (Call.step cr ft tx) (fun _ => none, .empty)
    (assistantSettings ft tx p.1 none = .ok (p.2.assistant.getD .default) ∧
      (p.2.assistant.getD .default).validate = .ok ()) ∧
    (updateSettings ft tx p.1 none = .ok (p.2.updates.getD .default) ∧
      (p.2.updates.getD .default).validate = .ok ()) ∧
    (∀ channel, assistantSession cr ft tx channel p.1 none = .ok (p.2.sessions channel)) ∧
    activeAssistantChannel ft tx p.1 none = .ok p.2.channel ∧
    ∀ c : Call, (c.run cr ft tx p.1 ⟨none, none⟩).2 = c.check := by
  intro p
  have h : Represents cr ft p.1 p.2 := run_represents hft calls represents_empty
  refine ⟨⟨h.readAssistantSettings hft, ?_⟩, ⟨h.readUpdateSettings hft, ?_⟩,
    h.readAssistantSession hcr hft, h.readActiveAssistantChannel hft, h.result hft tx⟩
  · have hvalid := h.assistantValid
    cases hs : p.2.assistant with
    | none => exact assistant_default_valid
    | some s => exact hvalid s hs
  · have hvalid := h.updatesValid
    cases hs : p.2.updates with
    | none => exact update_default_valid
    | some s => exact hvalid s hs

/-- A session is opened and cleared on one channel while another keeps its own. -/
theorem settings_kept_channels :
    let task : TaskId := ⟨0⟩
    let session : AssistantSession := ⟨task, none, "codex", none, none, none, true⟩
    let calls : List (Call × Faults) :=
      [(.setChannel "telegram", ⟨none, none⟩), (.saveSession "telegram" session, ⟨none, none⟩),
        (.saveSession "web" session, ⟨none, none⟩), (.clearSession "web", ⟨none, none⟩),
        (.saveUpdates ⟨true, 0, true⟩, ⟨none, none⟩),
        (.clearSession "telegram", ⟨none, some "database is locked"⟩)]
    let p := calls.foldl (Call.step plainCrates JsonGrammar.floatBits ⟨id, fun _ => ""⟩)
      (fun _ => none, .empty)
    assistantSession plainCrates JsonGrammar.floatBits ⟨id, fun _ => ""⟩ "telegram" p.1 none =
      .ok (some session) :=
  (settings_kept plainCrates_lawful JsonGrammar.floatBits_lawful ⟨id, fun _ => ""⟩ _).2.2.1
    "telegram"

end Stackhour.Hub.Settings
