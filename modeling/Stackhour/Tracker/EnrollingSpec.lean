import Stackhour.Core.ConfigSpec
import Stackhour.Core.EnrollmentSpec
import Stackhour.Tracker.Enrolling

/-!
# An enrolled machine is let in

From the code to the request: an agent that was set up with a code is taken for the machine of
the code, whatever else happens to the hub's tokens, until the token of that machine is rotated
or revoked; and it is let in at all just if its secret can stand in a header.
-/

namespace Stackhour.Tracker

open Core Domain JsonGrammar TransitionSystem

variable {fl : Floats} {ft : JsonGrammar.FloatText} {parseUrl : String → Option Url}

/-! ## The secret of a machine over a run -/

/-- What an operation left to a machine, if it was on that machine and succeeded. -/
def Performed.left (name : String) (p : Performed) : Option (Option String) :=
  match p.result, machineName p.command.machine with
  | .ok _, .ok m => if m = name then some p.command.secret else none
  | _, _ => none

/-- What the last operation on a machine left there, if one succeeded. -/
def lastSecret (name : String) (performed : List Performed) : Option (Option String) :=
  performed.foldl (fun last p => (p.left name).or last) none

theorem lastSecret_snoc (name : String) (performed : List Performed) (p : Performed) :
    lastSecret name (performed ++ [p]) = (p.left name).or (lastSecret name performed) := by
  unfold lastSecret
  rw [List.foldl_append]
  rfl

/-- The entry of a machine in the map of a configuration. -/
def entryOf (config : Json) (name : String) : Option Json := Fields.get (tokenMap config) name

variable {J : JsonText}

theorem isObject_withoutTokens {config : Json} :
    (∃ root, config = .object root) ↔ ∃ root, withoutTokens config = .object root := by
  cases config with
  | object root => exact ⟨fun _ => ⟨_, rfl⟩, fun _ => ⟨_, rfl⟩⟩
  | _ => exact ⟨nofun, nofun⟩

/-- What a file says of a machine: the configuration is an object, with this entry. -/
def Says (J : JsonText) (file : File) (name : String) (entry : Option Json) : Prop :=
  ∃ config, configOf J file = some config ∧ (∃ root, config = .object root) ∧
    entryOf config name = entry

/-- The entry that operations leave over another one. -/
def entryAfter (left : Option (Option String)) (entry : Option Json) : Option Json :=
  (left.map fun secret => secret.map .string).getD entry

theorem entryAfter_or (left last : Option (Option String)) (entry : Option Json) :
    entryAfter (left.or last) entry = entryAfter left (entryAfter last entry) := by
  cases left <;> rfl

/-- **An operation on the hub** leaves a machine its entry, or replaces it. -/
theorem Performed.Kept.entry {p : Performed} (hkept : p.Kept J) {name : String}
    {entry : Option Json} (h : Says J p.before name entry) :
    Says J p.after name (entryAfter (p.left name) entry) := by
  unfold Performed.Kept at hkept
  unfold Performed.left
  cases hresult : p.result with
  | error e =>
      rw [hresult] at hkept
      rw [show p.after = p.before from hkept]
      exact h
  | ok u =>
      rw [hresult] at hkept
      obtain ⟨m, before, after, hm, hbefore, hafter, hget, hothers, hrest⟩ := hkept
      obtain ⟨config, hconfig, hobject, hentry⟩ := h
      obtain rfl := Option.some.inj (hbefore.symm.trans hconfig)
      refine ⟨after, hafter, ?_, ?_⟩
      · rw [isObject_withoutTokens, hrest, ← isObject_withoutTokens]
        exact hobject
      · rw [hm]
        dsimp only
        split
        · next hsame =>
            rw [← hsame]
            exact hget
        · next hother =>
            have hne : name ≠ m := fun h => hother h.symm
            unfold entryOf at hentry ⊢
            rw [← Fields.get_remove_of_ne hne, hothers, Fields.get_remove_of_ne hne, hentry]
            rfl

/-- Over a run the entry of a machine is what the last operation on it left. -/
theorem says_of_run (hJ : J.Lawful) {hub : File} {name : String} {entry : Option Json}
    (hstart : ∀ config, configOf J hub = some config → Assigned fl config)
    (h : Says J hub name entry) {s : TokenFile}
    (hreach : (TokenFile.system fl J hub).Reach (TokenFile.Sound fl J) s) :
    Says J s.file name (entryAfter (lastSecret name s.performed) entry) := by
  refine hreach.invariant_reach
    (P := fun s => Says J s.file name (entryAfter (lastSecret name s.performed) entry)) ?_ ?_
  · rintro s rfl
    exact h
  · intro s a t hs ih hok hstep
    have ht := stays_assigned hJ hstart (hs.next hok hstep)
    obtain rfl := Option.some.inj hstep
    have hkept := ht.2 _ (List.mem_append_right s.performed (List.mem_singleton_self _))
    rw [lastSecret_snoc, entryAfter_or]
    exact hkept.entry ih

/-! ## Printing a code -/

theorem commit_ok {α : Type*} {access : FileAccess} {file file' : File}
    {edited : Except String (Json × α)} {a : α}
    (h : commit J access file edited = (file', .ok a)) :
    ∃ config, edited = .ok (config, a) ∧ access.write = .done ∧ file' = fileOf J config := by
  cases edited with
  | error e => cases (Prod.mk.inj h).2
  | ok edit =>
      obtain ⟨config, b⟩ := edit
      obtain ⟨hfile, hresult⟩ := Prod.mk.inj h
      unfold writeRawConfig at hfile hresult
      cases hwrite : access.write with
      | done =>
          rw [hwrite] at hfile hresult
          obtain rfl := Except.ok.inj hresult
          exact ⟨config, rfl, rfl, hfile.symm⟩
      | _ =>
          rw [hwrite] at hresult
          cases hresult

theorem createEdit_names {loaded : LoadedConfig} {name : String} {token : Option String}
    {generated : String} {force : Bool} {config : Json} {n secret : String}
    (h : createEdit loaded name token generated force = .ok (config, n, secret)) :
    n = name ∧ secret = newSecret token generated ∧ secret ≠ "" := by
  unfold createEdit at h
  split at h
  · cases h
  · dsimp only at h
    split at h
    · cases h
    · next hne =>
        split at h
        · cases h
        · cases h
          exact ⟨rfl, rfl, hne⟩

/-- **A secret that was created** is in the file, for its machine. -/
theorem create_says (hJ : J.Lawful) {access : FileAccess} {hub hub' : File} {machine : String}
    {token : Option String} {generated : String} {force : Bool} {name secret : String}
    (hassigned : ∀ config, configOf J hub = some config → Assigned fl config)
    (hsound : TokenFile.Sound fl J ⟨hub, []⟩ (.create machine token generated force, access))
    (h : createMachineToken fl J access hub machine token generated force =
      (hub', .ok (name, secret))) :
    machineName machine = .ok name ∧ secret = newSecret token generated ∧ secret ≠ "" ∧
      Says J hub' name (some (.string secret)) ∧
      ∀ config, configOf J hub' = some config → Assigned fl config := by
  obtain ⟨config, hcreated, hwrite, rfl⟩ := commit_ok h
  obtain ⟨m, hm, hrest⟩ := Result.bind_eq_ok.mp hcreated
  obtain ⟨loaded, hread, hedit⟩ := Result.bind_eq_ok.mp hrest
  obtain ⟨rfl, rfl, hne⟩ := createEdit_names hedit
  have hperform := create_written hwrite hcreated
  obtain ⟨hnext, hkept⟩ := TokenFile.step_kept hJ hassigned hsound rfl
  have hstep := hkept _ (List.mem_singleton_self _)
  dsimp only at hnext hstep
  rw [hperform] at hnext hstep
  refine ⟨hm, rfl, hne, ?_, hnext⟩
  -- the edit was made to an object, and stands in one
  obtain ⟨read, hconfig, hloaded⟩ := readServerConfig_ok hread
  obtain ⟨root, -, -, rfl, -⟩ := serverConfig_ok hloaded (hassigned read hconfig).1
  have hbefore : Says J hub name (entryOf (.object root) name) := ⟨_, hconfig, ⟨root, rfl⟩, rfl⟩
  have hsays := (hstep.resolve_left nofun).entry hbefore
  unfold Performed.left at hsays
  dsimp only [TokenCommand.machine] at hsays
  rw [hm] at hsays
  dsimp only at hsays
  rw [if_pos rfl] at hsays
  exact hsays

theorem tokenCreate_enrolled {access : FileAccess} {hub hub' : File} {machine : String}
    {token : Option String} {generated : String} {force raw : Bool} {serverUrl : Option String}
    {name code : String}
    (h : tokenCreate fl ft parseUrl access hub machine token generated force raw serverUrl =
      (hub', .ok (.enrolled name code))) :
    ∃ secret u, createMachineToken fl (JsonGrammar.text ft) access hub machine token generated
        force = (hub', .ok (name, secret)) ∧
      createEnrollment parseUrl ft u name secret = .ok code := by
  unfold tokenCreate at h
  dsimp only at h
  split at h
  · cases (Prod.mk.inj h).2
  · next n secret hcreated =>
      obtain ⟨hfile, houtput⟩ := Prod.mk.inj h
      obtain ⟨url, -, hprinted⟩ := Result.bind_eq_ok.mp houtput
      cases url with
      | none => cases hprinted
      | some u =>
          dsimp only at hprinted
          split at hprinted
          · cases hprinted
          · obtain ⟨c, hc, heq⟩ := Result.map_eq_ok.mp hprinted
            cases heq
            exact ⟨secret, u, Prod.ext hfile hcreated, hc⟩

/-! ## Setting up the agent -/

theorem readExistingRaw_fits (hft : ft.Lawful) {access : FileAccess} {file : File} {config : Json}
    (h : readExistingRaw ft access file = .ok config) : config.Fits 127 := by
  unfold readExistingRaw at h
  split at h
  · rw [← Except.ok.inj h]
    exact fits_empty
  · split at h
    · cases h
    · split at h
      · cases h
      · next hparse =>
          rw [← Except.ok.inj h]
          exact (text_lawful hft).fits hparse

theorem agentSection_fits (serverUrl token machine : String) (roots : List String) :
    (agentSection serverUrl token machine roots).Fits 126 :=
  fits_object ["serverUrl", "token", "machine", "projectRoots"] (by decide) rfl
    ⟨.string _, .string _, .string _, fits_strings _ _⟩

theorem rootFields_fits {config : Json} (h : config.Fits 127) :
    Json.Fits 127 (.object (rootFields config)) := by
  cases config with
  | object fields => exact h
  | _ => exact fits_empty

/-- What `init agent` writes, of the options that a code stands for. -/
theorem initAgentConfig_ok {host : Host} {access : FileAccess} {file : File}
    {opts : InitAgentOpts} {config agent : Json}
    (h : initAgentConfig fl ft parseUrl host access file opts = .ok (config, agent)) :
    ∃ url token machine clean roots existing,
      initSource fl ft parseUrl host opts = .ok (some url, token, machine) ∧
      readExistingRaw ft access file = .ok existing ∧ validUrl parseUrl url = .ok clean ∧
      agent = agentSection clean (jsTrimmed (token.getD ""))
        (cleanOrDefault machine host.hostname) roots ∧
      config = .object (Fields.insert (rootFields existing) "agent" agent) := by
  obtain ⟨⟨url, token, machine⟩, hsource, h⟩ := Result.bind_eq_ok.mp h
  dsimp only at h
  split at h
  · cases h
  · next serverUrl hurl =>
      split at h
      · cases h
      · obtain ⟨existing, hexisting, h⟩ := Result.bind_eq_ok.mp h
        split at h
        · cases h
        · obtain ⟨clean, hclean, h⟩ := Result.bind_eq_ok.mp h
          obtain ⟨roots, -, h⟩ := Result.bind_eq_ok.mp h
          split at h
          · cases h
          · have hsome : url = some serverUrl := by
              cases url with
              | none => cases hurl
              | some u =>
                  exact congrArg some (Option.some.inj (Option.filter_eq_some_iff.mp hurl).1)
            cases h
            exact ⟨serverUrl, token, machine, clean, roots, existing, hsome ▸ hsource, hexisting,
              hclean, rfl, rfl⟩

/-- The source of an agent that is set up with a code. -/
theorem initSource_code {host : Host} {opts : InitAgentOpts} {code : String}
    (hcode : opts.enrollment = some code) (hne : code ≠ "")
    {source : Option String × Option String × Option String}
    (h : initSource fl ft parseUrl host opts = .ok source) :
    ∃ parsed, parseEnrollment parseUrl ft fl code = .ok parsed ∧
      source = (some parsed.serverUrl, some parsed.token, some parsed.machine) := by
  unfold initSource at h
  rw [hcode, Option.filter_some_pos (by simpa using hne)] at h
  dsimp only at h
  split at h
  · cases h
  · obtain ⟨parsed, hparsed, rfl⟩ := Result.map_eq_ok.mp h
    exact ⟨parsed, hparsed, rfl⟩

theorem code_ne {bs : List UInt8} (h : bs ≠ []) : String.ofList (Base64.encode bs) ≠ "" := by
  intro hempty
  have htext := congrArg (fun s => s.toList.length) hempty
  rw [String.toList_ofList, Base64.encode, List.length_map, Base64.length_sextets] at htext
  have hpos := List.length_pos_of_ne_nil h
  have hzero : (4 * bs.length + 2) / 3 = 0 := htext
  omega

/-- **An agent that is set up with a code** has the machine and the secret of the code in its
file. The URL is validated twice more on the way. -/
theorem initAgent_code (hcrate : UrlCrate parseUrl) (hft : ft.Lawful) {host : Host}
    {access : FileAccess} {file file' : File} {opts : InitAgentOpts} {agent : Json}
    {u name secret code : String} (hcode : createEnrollment parseUrl ft u name secret = .ok code)
    (hopts : opts.enrollment = some code)
    (h : initAgent fl ft parseUrl host access file opts = (file', .ok agent)) :
    ∃ clean roots root, validUrl parseUrl u = .ok clean ∧ Json.Fits 127 (.object root) ∧
      configOf (JsonGrammar.text ft) file' = some (.object root) ∧
      Fields.get root "agent" = some (agentSection (stripSlash (stripSlash clean))
        (jsTrimmed secret) (jsTrimmed name) roots) := by
  obtain ⟨config, hconfig, -, rfl⟩ := commit_ok h
  obtain ⟨url, token, machine, final, roots, existing, hsource, hexisting, hfinal, rfl, rfl⟩ :=
    initAgentConfig_ok hconfig
  obtain ⟨clean, hclean, hmachine, htoken, rfl⟩ := createEnrollment_ok hcode
  obtain ⟨parsed, hparsed, hsame⟩ :=
    initSource_code hopts (code_ne (payloadBytes_ne_nil _ _ _)) hsource
  rw [parseEnrollment_encode hft, fieldTrim_trimmed hmachine, fieldTrim_trimmed htoken] at hparsed
  split at hparsed
  · rw [validUrl_again hcrate hclean] at hparsed
    obtain rfl := Except.ok.inj hparsed
    cases hsame
    rw [validUrl_again hcrate (validUrl_again hcrate hclean)] at hfinal
    obtain rfl := Except.ok.inj hfinal
    have hfits := (rootFields_fits (readExistingRaw_fits hft hexisting)).insert "agent"
      (agentSection_fits (stripSlash (stripSlash clean))
        (jsTrimmed ((some (jsTrimmed secret)).getD ""))
        (cleanOrDefault (some (jsTrimmed name)) host.hostname) roots)
    refine ⟨clean, roots, _, hclean, hfits, configOf_written (text_lawful hft) hfits, ?_⟩
    rw [Fields.get_insert]
    unfold cleanOrDefault
    rw [Option.getD_some, Option.getD_some, jsTrimmed_jsTrimmed, jsTrimmed_jsTrimmed]
  · cases hparsed

/-! ## The configurations that are loaded -/

variable {home dbPath hostname : String}

/-- A field that an edit of sections leaves alone. -/
theorem modify_reach {f : Json → Json} {field : String} (hf : ∀ v, (f v).get field = v.get field)
    (fields : Fields) (at' key : String) :
    ((fields.modify at' f).get key).bind (Json.get field) =
      (fields.get key).bind (Json.get field) := by
  by_cases hkey : key = at'
  · rw [hkey, Fields.get_modify]
    cases fields.get at' with
    | none => rfl
    | some v => exact hf v
  · rw [Fields.get_modify_of_ne hkey]

theorem onObject_get {f : Fields → Fields} {field : String}
    (hf : ∀ fields, (f fields).get field = Fields.get fields field) (v : Json) :
    (v.onObject f).get field = v.get field := by
  cases v with
  | object fields => exact hf fields
  | _ => rfl

theorem expandRoots_get {agent : Fields} {field : String} (h : field ≠ "projectRoots") :
    (expandRoots fl home agent).get field = agent.get field := by
  unfold expandRoots
  split
  · exact Fields.get_modify_of_ne h agent _
  · split
    · rfl
    · exact Fields.get_insert_of_ne h _
  · exact Fields.get_insert_of_ne h _

/-- The fields of the sections of a loaded configuration, but for the paths and the apps. -/
theorem loadRaw_reach {user : Json} {key field : String}
    (hdb : field ≠ "db") (hroots : field ≠ "projectRoots") (happs : field ≠ "apps") :
    ((loadRaw fl home dbPath hostname user).get key).bind (Json.get field) =
      reach (deepMerge (defaultsWith dbPath hostname) user) [key, field] := by
  have hserver : ∀ v, (Json.onObject (fun server =>
      Fields.modify server "db" (expandString home)) v).get field = v.get field :=
    onObject_get fun fields => Fields.get_modify_of_ne hdb fields _
  have hagent : ∀ v, (Json.onObject (fun agent =>
      normalizeApps (expandRoots fl home agent)) v).get field = v.get field := by
    apply onObject_get
    intro fields
    unfold normalizeApps
    rw [Fields.get_modify_of_ne happs, expandRoots_get hroots]
  have hreach : ∀ fields : Fields, reach (.object fields) [key, field] =
      (Fields.get fields key).bind (Json.get field) := by
    intro fields
    show (Fields.get fields key).bind (fun w => (w.get field).bind some) = _
    congr 1
    funext w
    cases w.get field <;> rfl
  exact ((modify_reach hagent _ "agent" key).trans
    (modify_reach hserver _ "server" key)).trans (hreach _).symm

/-- A field that the file has, and that is no object, is the loaded one. -/
theorem loadRaw_field {root section' : Fields} {key field : String} {v : Json}
    (hroot : WellFormed (.object root)) (hkey : Fields.get root key = some (.object section'))
    (hfield : Fields.get section' field = some v) (hdb : field ≠ "db")
    (hroots : field ≠ "projectRoots") (happs : field ≠ "apps") :
    ((loadRaw fl home dbPath hostname (.object root)).get key).bind (Json.get field) =
      some (mergeValue (default (asObject (defaultsWith dbPath hostname)) [key, field]) v) := by
  rw [loadRaw_reach hdb hroots happs]
  apply (deepMerge_reads (defaultsWith_wellFormed dbPath hostname) hroot).1
  show (Fields.get root key).bind _ = _
  rw [hkey]
  show (Fields.get section' field).bind _ = _
  rw [hfield]
  rfl

/-- **The agent that is loaded** is the one that the file has. -/
theorem buildAgent_section {text : FloatText} {root : Fields} {url token machine : String}
    {roots : List String} (hroot : WellFormed (.object root))
    (hagent : Fields.get root "agent" = some (agentSection url token machine roots)) :
    buildAgent text (loadRaw fl home dbPath hostname (.object root)) = ⟨url, token, machine⟩ := by
  have hfield : ∀ field s, Fields.get [("serverUrl", .string url), ("token", .string token),
      ("machine", .string machine), ("projectRoots", .array (roots.map .string))] field =
        some (.string s) → field ≠ "db" → field ≠ "projectRoots" → field ≠ "apps" → ∀ d,
      Config.stringField text ((loadRaw fl home dbPath hostname (.object root)).get "agent")
        field d = s := by
    intro field s hget hdb hroots happs d
    unfold Config.stringField
    rw [loadRaw_field hroot hagent hget hdb hroots happs]
    rfl
  unfold buildAgent
  rw [hfield "serverUrl" url rfl (by decide) (by decide) (by decide),
    hfield "token" token rfl (by decide) (by decide) (by decide),
    hfield "machine" machine rfl (by decide) (by decide) (by decide)]

theorem mergeFields_nil {m : Fields} (hm : Table.Unique Prod.fst m) : mergeFields [] m = m := by
  apply Fields.eq_of_get (mergeFields_unique hm Table.unique_nil) hm
  · rw [mergeFields_keys hm]
    simp
  · intro k
    rw [mergeFields_get hm]
    cases hget : m.get k with
    | none => rfl
    | some v => exact congrArg some (mergeValue_none v)

/-- **The tokens that the hub has loaded** are the ones of its file. -/
theorem loadRaw_tokens {root : Fields} (hroot : WellFormed (.object root)) :
    nonemptyObject (((loadRaw fl home dbPath hostname (.object root)).get "server").bind
        (Json.get "tokens")) = nonemptyObject (some (.object (tokenMap (.object root)))) := by
  obtain ⟨hreached, hopen, -⟩ :=
    deepMerge_reads (defaultsWith_wellFormed dbPath hostname) hroot
  rw [loadRaw_reach (by decide) (by decide) (by decide)]
  have htop : ∀ path, reach (asObject (.object root)) path = reach (.object root) path :=
    fun _ => rfl
  cases hserver : Fields.get root "server" with
  | none =>
      have hmap : tokenMap (.object root) = [] := by
        unfold tokenMap
        rw [get_object, hserver]
        rfl
      rw [hmap]
      exact congrArg nonemptyObject (hopen [] "server" ["tokens"] root rfl hserver)
  | some v =>
      have hone : reach (asObject (.object root)) ["server"] = some v := by
        rw [htop, reach, get_object, hserver]
        rfl
      cases v with
      | object server =>
          have hmap := tokenMap_object hserver
          cases htokens : Fields.get server "tokens" with
          | none =>
              rw [htokens] at hmap
              rw [hmap]
              exact congrArg nonemptyObject (hopen ["server"] "tokens" [] server hone htokens)
          | some w =>
              have htwo : reach (asObject (.object root)) ["server", "tokens"] = some w := by
                rw [htop, reach, get_object, hserver, Option.bind_some, reach, get_object,
                  htokens]
                rfl
              rw [hreached _ _ htwo]
              rw [htokens] at hmap
              rw [hmap]
              cases w with
              | object m =>
                  have hunique := ((hroot.fields.2 hserver).fields.2 htokens).fields.1
                  show nonemptyObject (some (.object (mergeFields [] m))) = _
                  rw [mergeFields_nil hunique]
              | _ => rfl
      | _ =>
          have hmerged := hreached _ _ hone
          have hmap : tokenMap (.object root) = [] := by
            unfold tokenMap
            rw [get_object, hserver]
            rfl
          rw [hmap, show ["server", "tokens"] = ["server"] ++ ["tokens"] from rfl, reach_append,
            hmerged]
          rfl

/-! ## Who is let in -/

variable {parseQuery : String → List (String × String)} {carry : String → Option String}

/-- No token is the empty text, as no number is printed as it. -/
theorem truthyString_ne (hdisplay : ∀ f, fl.display f ≠ "") (v : Json) :
    truthyString fl v ≠ some "" := by
  intro h
  unfold truthyString at h
  split at h
  · cases h
  · next htruthy =>
      cases v with
      | string s =>
          obtain rfl := Option.some.inj h
          exact htruthy rfl
      | bool b =>
          cases b with
          | false => cases h
          | true => exact absurd (Option.some.inj h) (by decide)
      | number n => exact hdisplay _ (Option.some.inj h)
      | _ => cases h

/-- A machine is found by its secret when no other entry reads as that. -/
theorem matchingMachine_of_distinct {tokens : Fields} {name secret : String}
    (hdistinct : Distinct fl tokens) (hmem : (name, Json.string secret) ∈ tokens)
    (hne : secret ≠ "") : matchingMachine fl secret tokens = some (.machine name) := by
  have hreads : truthyString fl (.string secret) = some secret := by
    unfold truthyString
    rw [show isTruthy fl (.string secret) = true from bne_iff_ne.mpr hne]
    rfl
  unfold matchingMachine
  cases hfind : tokens.find? (fun e => truthyString fl e.2 == some secret) with
  | none =>
      have hnot := List.find?_eq_none.mp hfind _ hmem
      exact absurd (beq_iff_eq.mpr hreads) hnot
  | some e =>
      have he := List.find?_some hfind
      have hsame := hdistinct e (List.mem_of_find?_eq_some hfind) _ hmem secret
        (beq_iff_eq.mp he) hreads
      rw [Option.map_some, hsame]

/-- A machine that is found has an entry that reads as the secret. -/
theorem mem_of_matchingMachine {tokens : Fields} {name secret : String}
    (h : matchingMachine fl secret tokens = some (.machine name)) :
    ∃ v, (name, v) ∈ tokens ∧ truthyString fl v = some secret := by
  obtain ⟨e, hfind, heq⟩ := Option.map_eq_some_iff.mp h
  obtain rfl := Principal.machine.inj heq
  have he := List.find?_some hfind
  exact ⟨e.2, List.mem_of_find?_eq_some hfind, beq_iff_eq.mp he⟩

theorem matchingMachine_empty (hdisplay : ∀ f, fl.display f ≠ "") (tokens : Fields) :
    matchingMachine fl "" tokens = none := by
  unfold matchingMachine
  rw [Option.map_eq_none_iff, List.find?_eq_none]
  intro e _ h
  exact truthyString_ne hdisplay e.2 (beq_iff_eq.mp h)

/-- What the hub reads of the header of an agent with this secret. -/
theorem requestToken_bearer (secret : String) :
    requestToken parseQuery (some ("Bearer " ++ secret)) "" = secret := by
  have hfront : ("Bearer " ++ secret).toList.dropPrefix? "Bearer ".toList =
      some secret.toList := by
    rw [String.toList_append]
    exact List.dropPrefix?_eq_some_iff.mpr ⟨_, rfl, BEq.rfl⟩
  unfold requestToken
  dsimp only [Option.getD_some]
  rw [hfront]
  exact String.ofList_toList

theorem requestToken_none (hquery : parseQuery "" = []) :
    requestToken parseQuery none "" = "" := by
  unfold requestToken
  rw [hquery]
  rfl

/-- A loaded configuration that has tokens for machines is not open. -/
theorem authenticate_tokens {server : Json} {tokens : Fields} {authorization : Option String}
    (htokens : nonemptyObject (server.get "tokens") = some tokens) :
    authenticate fl parseQuery authorization "" server =
      if (server.get "token").bind (truthyString fl) ==
          some (requestToken parseQuery authorization "") then some .global
      else matchingMachine fl (requestToken parseQuery authorization "") tokens := by
  unfold authenticate
  dsimp only
  rw [htokens, Option.isNone_some, Bool.and_false, if_neg (by decide)]
  rfl

/-- A request that is taken for a machine has the secret of one. -/
theorem authenticate_machine {server : Json} {authorization : Option String} {query name : String}
    (h : authenticate fl parseQuery authorization query server = some (.machine name)) :
    ∃ tokens, nonemptyObject (server.get "tokens") = some tokens ∧
      matchingMachine fl (requestToken parseQuery authorization query) tokens =
        some (.machine name) := by
  unfold authenticate at h
  dsimp only at h
  split at h
  · cases h
  · split at h
    · cases h
    · exact Option.bind_eq_some_iff.mp h

/-! ## Secrets in a header -/

theorem letter_plain : ∀ v < 64, isJsSpace (Base64.letter v) = false := by decide

theorem jsTrimmed_of_plain {s : String} (h : ∀ c ∈ s.toList, isJsSpace c = false) :
    jsTrimmed s = s := by
  have htrim : jsTrim s.toList = s.toList := by
    by_cases hne : s.toList = []
    · rw [hne]
      rfl
    · have hbetween := @trimMatches_between isJsSpace [] s.toList [] nofun nofun
        (fun c hc => h c (List.mem_of_mem_head? hc)) (fun c hc => h c (List.mem_of_getLast? hc)) hne
      rwa [List.nil_append, List.append_nil] at hbetween
  unfold jsTrimmed
  rw [htrim, String.ofList_toList]

/-- A new secret has no blanks at its ends. -/
theorem jsTrimmed_newSecret (token : Option String) (bytes : List UInt8) :
    jsTrimmed (newSecret token (generateToken bytes)) = newSecret token (generateToken bytes) := by
  cases token with
  | some s => exact jsTrimmed_jsTrimmed s
  | none =>
      apply jsTrimmed_of_plain
      intro c hc
      have hc : c ∈ (generateToken bytes).toList := hc
      rw [generateToken, String.toList_ofList] at hc
      obtain ⟨v, hv, rfl⟩ := List.mem_map.mp hc
      exact letter_plain v (Base64.sextets_lt bytes v hv)

theorem trimMatches_last {p : Char → Bool} {cs : List Char} {c : Char}
    (h : (trimMatches p cs).getLast? = some c) : p c = false := by
  unfold trimMatches at h
  rw [List.getLast?_reverse] at h
  have hhead := List.head?_dropWhile_not p (cs.dropWhile p).reverse
  rw [h] at hhead
  simpa using hhead

theorem headerBlank_space {c : Char} (h : headerBlank c = true) : isJsSpace c = true := by
  have hcases : c = ' ' ∨ c = '\t' := by
    unfold headerBlank at h
    rw [Bool.or_eq_true, beq_iff_eq, beq_iff_eq] at h
    exact h.imp (fun h => Char.toNat_inj.mp h) fun h => Char.toNat_inj.mp h
  rcases hcases with rfl | rfl <;> decide

/-- **A secret travels in a header** just if it is visible ASCII. -/
theorem carry_bearer (hheader : HeaderCrate carry) {secret : String} (hne : secret ≠ "")
    (htrim : jsTrimmed secret = secret) :
    carry ("Bearer " ++ secret) =
      if secret.toList.all visibleAscii then some ("Bearer " ++ secret) else none := by
  have hall : ("Bearer " ++ secret).toList.all visibleAscii = secret.toList.all visibleAscii := by
    rw [String.toList_append, List.all_append]
    exact Bool.true_and _
  split
  · next hvisible =>
      apply hheader.visible _ (hall.trans hvisible)
      intro c hc
      rw [String.toList_append] at hc
      rcases hc with hfirst | hlast
      · obtain rfl := Option.some.inj hfirst
        decide
      · have hlist : secret.toList ≠ [] := fun h => hne (String.toList_inj.mp h)
        rw [List.getLast?_append_of_ne_nil _ hlist, ← htrim, jsTrimmed, String.toList_ofList]
          at hlast
        have hspace := trimMatches_last hlast
        exact Bool.eq_false_iff.mpr fun hblank => by
          rw [headerBlank_space hblank] at hspace
          cases hspace
  · next hhidden => exact hheader.hidden _ (hall.trans (Bool.eq_false_iff.mpr hhidden))

/-! ## The rows of an agent -/

theorem foldl_insert_get {rows : Fields} {key : String} (h : key ∉ rows.map Prod.fst)
    (out : Fields) : (rows.foldl (fun out f => Fields.insert out f.1 f.2) out).get key =
      out.get key := by
  induction rows generalizing out with
  | nil => rfl
  | cons f rows ih =>
      rw [List.map_cons, List.mem_cons, not_or] at h
      rw [List.foldl_cons, ih h.2, Fields.get_insert_of_ne h.1]

/-- A row is stamped with the machine of the agent, unless it names one itself. -/
theorem rowMachine_stamp {cfg : AgentCfg} (hne : cfg.machine ≠ "") {row : Json}
    (hrow : row.get "machine" = none) : rowMachine fl (stampRow cfg row) = cfg.machine := by
  have hget : (stampRow cfg row).get "machine" = some (.string cfg.machine) := by
    show Fields.get _ "machine" = _
    rw [foldl_insert_get]
    · rfl
    · rw [← Fields.get_eq_none]
      cases row with
      | object fields => exact hrow
      | _ => rfl
  unfold rowMachine
  rw [hget]
  dsimp only
  rw [show jsTruthy fl (.string cfg.machine) = true from bne_iff_ne.mpr hne, if_pos rfl, jsDisplay]

theorem machineName_ok {machine name : String} (h : machineName machine = .ok name) :
    name ≠ "" ∧ jsTrimmed name = name := by
  unfold machineName at h
  dsimp only at h
  split at h
  · cases h
  · next hgood =>
      obtain rfl := Except.ok.inj h
      constructor
      · intro hempty
        have hlist : jsTrim machine.toList = [] := by
          rw [← @String.toList_ofList (jsTrim machine.toList), hempty]
          rfl
        rw [hlist] at hgood
        exact hgood rfl
      · exact jsTrimmed_jsTrimmed machine

/-! ## From the code to the request -/

variable (fl) in
/-- A hub lets an agent in, and takes the rows that the agent stamps. -/
def Served (carry : String → Option String) (parseQuery : String → List (String × String))
    (hub : Json) (cfg : AgentCfg) : Prop :=
  ∃ p, admitted fl carry parseQuery hub cfg = some p ∧
    ∀ row, row.get "machine" = none → allowsMachine p (some (rowMachine fl (stampRow cfg row)))

/-- The tokens that `authenticate` finds in a loaded configuration. -/
theorem server_tokens {root : Fields} (hroot : WellFormed (.object root)) :
    nonemptyObject ((((loadRaw fl home dbPath hostname (.object root)).get "server").getD
      (.object [])).get "tokens") = nonemptyObject (some (.object (tokenMap (.object root)))) := by
  rw [← @loadRaw_tokens fl home dbPath hostname root hroot]
  cases (loadRaw fl home dbPath hostname (.object root)).get "server" <;> rfl

/-- What the hub makes of the header of an agent. -/
theorem admitted_eq (hheader : HeaderCrate carry) {hub : Json} {url secret machine : String}
    (hne : secret ≠ "") (htrim : jsTrimmed secret = secret) :
    admitted fl carry parseQuery hub ⟨url, secret, machine⟩ =
      authenticate fl parseQuery
        (if secret.toList.all visibleAscii then some ("Bearer " ++ secret) else none) ""
        ((hub.get "server").getD (.object [])) := by
  unfold admitted bearer
  rw [if_neg hne, Option.bind_some, carry_bearer hheader hne htrim]

/-- A hub whose file has the secret for the machine serves its agent just if the secret is
visible ASCII. -/
theorem served_iff (hheader : HeaderCrate carry) (hquery : parseQuery "" = [])
    (hdisplay : ∀ f, fl.display f ≠ "") {root : Fields} (hroot : WellFormed (.object root))
    {url secret name : String} (hentry : entryOf (.object root) name = some (.string secret))
    (hdistinct : Distinct fl (tokenMap (.object root))) (hname : name ≠ "") (hne : secret ≠ "")
    (htrim : jsTrimmed secret = secret) :
    Served fl carry parseQuery (loadRaw fl home dbPath hostname (.object root))
        ⟨url, secret, name⟩ ↔ secret.toList.all visibleAscii = true := by
  have hmem := Fields.mem_of_get hentry
  have htokens := @server_tokens fl home dbPath hostname root hroot
  have hsome : nonemptyObject (some (.object (tokenMap (.object root)))) =
      some (tokenMap (.object root)) :=
    if_neg (by rw [List.isEmpty_iff]; exact List.ne_nil_of_mem hmem)
  rw [hsome] at htokens
  unfold Served
  rw [admitted_eq hheader hne htrim, authenticate_tokens htokens]
  split
  · next hvisible =>
      refine iff_of_true ?_ hvisible
      rw [requestToken_bearer, matchingMachine_of_distinct hdistinct hmem hne]
      split
      · exact ⟨.global, rfl, fun _ _ => rfl⟩
      · refine ⟨.machine name, rfl, ?_⟩
        intro row hrow
        rw [@rowMachine_stamp fl ⟨url, secret, name⟩ hname row hrow]
        unfold allowsMachine
        rw [Option.filter_some_pos (by simpa using hname)]
        exact beq_self_eq_true name
  · next hhidden =>
      refine iff_of_false ?_ hhidden
      rw [requestToken_none hquery, matchingMachine_empty hdisplay]
      rintro ⟨p, hp, -⟩
      split at hp
      · next hlegacy =>
          obtain ⟨v, -, hv⟩ := Option.bind_eq_some_iff.mp (beq_iff_eq.mp hlegacy)
          exact truthyString_ne hdisplay v hv
      · cases hp

theorem tokenMap_unique {root : Fields} (hroot : WellFormed (.object root)) :
    Table.Unique Prod.fst (tokenMap (.object root)) := by
  cases hserver : Fields.get root "server" with
  | none =>
      unfold tokenMap
      rw [get_object, hserver]
      exact Table.unique_nil
  | some v =>
      cases v with
      | object server =>
          rw [tokenMap_object hserver]
          cases htokens : Fields.get server "tokens" with
          | none => exact Table.unique_nil
          | some w =>
              cases w with
              | object m => exact ((hroot.fields.2 hserver).fields.2 htokens).fields.1
              | _ => exact Table.unique_nil
      | _ =>
          unfold tokenMap
          rw [get_object, hserver]
          exact Table.unique_nil

/-- A hub takes an agent for a machine only with a secret that its file has for it. -/
theorem admitted_entry (hheader : HeaderCrate carry) (hquery : parseQuery "" = [])
    (hdisplay : ∀ f, fl.display f ≠ "") {root : Fields} (hroot : WellFormed (.object root))
    {url secret name machine : String} (hne : secret ≠ "") (htrim : jsTrimmed secret = secret)
    (h : admitted fl carry parseQuery (loadRaw fl home dbPath hostname (.object root))
      ⟨url, secret, machine⟩ = some (.machine name)) :
    ∃ v, entryOf (.object root) name = some v ∧ truthyString fl v = some secret := by
  rw [admitted_eq hheader hne htrim] at h
  obtain ⟨tokens, htokens, hmatch⟩ := authenticate_machine h
  rw [server_tokens hroot] at htokens
  have hsame : tokens = tokenMap (.object root) := by
    unfold nonemptyObject at htokens
    dsimp only at htokens
    split at htokens
    · cases htokens
    · exact (Option.some.inj htokens).symm
  rw [hsame] at hmatch
  split at hmatch
  · rw [requestToken_bearer] at hmatch
    obtain ⟨v, hmem, hv⟩ := mem_of_matchingMachine hmatch
    exact ⟨v, Fields.get_of_mem (tokenMap_unique hroot) hmem, hv⟩
  · rw [requestToken_none hquery, matchingMachine_empty hdisplay] at hmatch
    cases hmatch

/-- Headers that are carried as they are. -/
def carryVisible (v : String) : Option String := if v.toList.all visibleAscii then some v else none

theorem carryVisible_crate : HeaderCrate carryVisible where
  visible _ h _ := if_pos h
  hidden _ h := if_neg (Bool.eq_false_iff.mp h)

/-- A machine whose directories are all there. -/
def box : Host := ⟨"box", "/home/me", some⟩

/-- The code of a machine on the hub of the sample. -/
def boxCode : String :=
  String.ofList (Base64.encode (payloadBytes floatBits "http://h" "box" "two"))

theorem boxCode_parse : parseEnrollment parseHost floatBits fiveFloats boxCode =
    .ok ⟨"http://h", "box", "two"⟩ := by
  obtain ⟨clean, hclean, hround⟩ := enrollment_round_trip parseHost_crate floatBits_lawful
    fiveFloats (show createEnrollment parseHost floatBits "http://h" "box" "two" = .ok boxCode from rfl)
  obtain rfl := Except.ok.inj ((show validUrl parseHost "http://h" = .ok "http://h" by
    decide).symm.trans hclean)
  exact hround.mpr ⟨by decide, by decide⟩

/-- `init agent --enrollment` on a machine without a file. -/
def boxOpts : InitAgentOpts := ⟨false, none, none, none, [], some boxCode⟩

theorem box_source : initSource fiveFloats floatBits parseHost box boxOpts =
    .ok (some "http://h", some "two", some "box") := by
  have hcode : boxOpts.enrollment.filter (fun code => code != "") = some boxCode :=
    Option.filter_some_pos (bne_iff_ne.mpr (code_ne (payloadBytes_ne_nil _ _ _)))
  unfold initSource
  rw [hcode]
  dsimp only
  rw [if_neg (by decide), boxCode_parse]
  rfl

/-- The file of the machine. -/
def boxConfig : Json :=
  .object [("agent", agentSection "http://h" "two" "box" [])]

theorem box_init : initAgent fiveFloats floatBits parseHost box ⟨true, .done, ""⟩ none boxOpts =
    (fileOf sampleText boxConfig, .ok (agentSection "http://h" "two" "box" [])) := by
  have hconfig : initAgentConfig fiveFloats floatBits parseHost box ⟨true, .done, ""⟩ none boxOpts =
      .ok (boxConfig, agentSection "http://h" "two" "box" []) := by
    unfold initAgentConfig
    rw [box_source]
    have htoken : jsTrimmed "two" = "two" := by decide
    have hmachine : jsTrimmed "box" = "box" := by decide
    simp only [bind, Except.bind, cleanOrDefault, Option.getD_some, htoken, hmachine]
    rfl
  unfold initAgent
  rw [hconfig]
  rfl

/-- `token create box` on a hub with a token of `mac`. -/
theorem box_create : tokenCreate fiveFloats floatBits parseHost ⟨true, .done, ""⟩
    (fileOf sampleText (onlyTokens [("mac", .string "one")])) "box" (some "two")
      (generateToken []) false false (some "http://h") =
    (fileOf sampleText (onlyTokens [("mac", .string "one"), ("box", .string "two")]),
      .ok (.enrolled "box" boxCode)) := by
  have hmac : Json.Fits 125 (.object [("mac", .string "one")]) :=
    fits_object ["mac"] (by decide) rfl (.string _)
  have hcreated : createdConfig fiveFloats sampleText ⟨true, .done, ""⟩
      (fileOf sampleText (onlyTokens [("mac", .string "one")])) "box" (some "two")
        (generateToken []) false =
      .ok (onlyTokens [("mac", .string "one"), ("box", .string "two")], "box", "two") := by
    have hread := @readServerConfig_written fiveFloats sampleText sampleText_lawful _
      (onlyTokens_fits hmac) ⟨true, .done, ""⟩ rfl
    rw [createdConfig_eq rfl hread]
    rfl
  unfold tokenCreate createMachineToken
  rw [hcreated]
  rfl

end Stackhour.Tracker
