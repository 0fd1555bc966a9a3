import Stackhour.Core.Engine

/-!
# What the argument vector is

The documented order of the arguments, and when it is what `assemble_argv` makes; and
when the values are put in their places as they are.
-/

namespace Stackhour.Core

/-! ## Splicing -/

theorem insertIdx_append (front tail : List String) (item : String) :
    (front ++ tail).insertIdx front.length item = front ++ item :: tail := by
  induction front with
  | nil => rfl
  | cons a front ih => exact congrArg (a :: ·) ih

theorem spliceIn_eq (front tail items : List String) :
    spliceIn (front ++ tail, front.length) items =
      (front ++ items ++ tail, (front ++ items).length) := by
  induction items generalizing front with
  | nil => simp [spliceIn]
  | cons item items ih =>
      have hstep : spliceIn (front ++ tail, front.length) (item :: items) =
          spliceIn ((front ++ [item]) ++ tail, (front ++ [item]).length) items := by
        show spliceIn ((front ++ tail).insertIdx front.length item, front.length + 1) items = _
        rw [insertIdx_append, List.append_assoc, List.length_append]
        rfl
      rw [hstep, ih, List.append_assoc front]
      rfl

/-- The groups go in one behind the other. -/
theorem splice_groups (front tail : List String) (groups : List (List String)) :
    groups.foldl spliceIn (front ++ tail, front.length) =
      (front ++ groups.flatten ++ tail, (front ++ groups.flatten).length) := by
  induction groups generalizing front with
  | nil => simp
  | cons items groups ih =>
      rw [List.foldl_cons, spliceIn_eq, ih, List.flatten_cons, List.append_assoc front]

theorem beforeSentinel_snoc (out : List String) : beforeSentinel (out ++ ["-"]) = out.length := by
  unfold beforeSentinel
  rw [if_pos (List.getLast?_concat ..), List.length_append]
  rfl

namespace EngineDef

/-! ## The documented order -/

/-- The base arguments before the sentinel. -/
def baseArgs (d : EngineDef) : List String :=
  if d.args.getLast? = some "-" then d.args.dropLast else d.args

/-- The definition's own `-`. -/
def sentinel (d : EngineDef) : List String :=
  if d.args.getLast? = some "-" then ["-"] else []

/-- The arguments before the session id of a resumed session: the subcommand comes right
after the first base argument. -/
def resumedArgs (d : EngineDef) (render : String → String) (vars : ArgvVars) (insert : String) :
    List String :=
  (d.baseArgs.map render).take 1 ++ insert :: (d.baseArgs.map render).drop 1 ++
    (d.groups render vars).flatten

/-- The documented order. -/
def documentedWith (d : EngineDef) (render : String → String) (vars : ArgvVars) : List String :=
  let spliced := d.baseArgs.map render ++ (d.groups render vars).flatten ++ d.sentinel
  match vars.sessionId with
  | none => spliced
  | some sid =>
      match d.resume with
      | .flag args => spliced ++ args.map render
      | .subcommand insert => d.resumedArgs render vars insert ++ sid :: d.sentinel

/-- An argument is taken for the sentinel that is not the definition's, or the subcommand has
no first argument to stand behind. -/
def Misread (d : EngineDef) (render : String → String) (vars : ArgvVars) : Prop :=
  (d.sentinel = [] ∧ (d.args.map render).getLast? = some "-") ∨
    (vars.sessionId.isSome = true ∧
      match d.resume with
      | .flag _ => False
      | .subcommand insert =>
          (d.baseArgs = [] ∧ (d.groups render vars).flatten ++ d.sentinel ≠ []) ∨
            (d.sentinel = [] ∧ (d.resumedArgs render vars insert).getLast? = some "-"))

theorem args_eq (d : EngineDef) : d.args = d.baseArgs ++ d.sentinel := by
  unfold baseArgs sentinel
  split
  · next h => exact (List.dropLast_append_getLast? _ h).symm
  · exact (List.append_nil _).symm

theorem sentinel_cases (d : EngineDef) : d.sentinel = ["-"] ∨ d.sentinel = [] := by
  unfold sentinel
  split
  · exact .inl rfl
  · exact .inr rfl

/-- The splice point is behind the base arguments when the rendered vector ends in `-` only
by the sentinel. -/
theorem spliced_eq {d : EngineDef} {render : String → String} (hdash : render "-" = "-")
    (h : ¬ (d.sentinel = [] ∧ (d.args.map render).getLast? = some "-")) (vars : ArgvVars) :
    ((d.groups render vars).foldl spliceIn
        (d.args.map render, beforeSentinel (d.args.map render))).1 =
      d.baseArgs.map render ++ (d.groups render vars).flatten ++ d.sentinel := by
  have hargs : d.args.map render = d.baseArgs.map render ++ d.sentinel.map render := by
    rw [← List.map_append, ← args_eq]
  rcases d.sentinel_cases with hsentinel | hsentinel
  · rw [hargs, hsentinel, List.map_singleton, hdash, beforeSentinel_snoc, splice_groups]
  · have hlast : (d.args.map render).getLast? ≠ some "-" := fun hlast => h ⟨hsentinel, hlast⟩
    have hpoint : beforeSentinel (d.args.map render) = (d.args.map render).length :=
      if_neg hlast
    rw [hpoint, hargs, hsentinel, List.map_nil, List.append_nil]
    have hsplice := splice_groups (d.baseArgs.map render) [] (d.groups render vars)
    rw [List.append_nil] at hsplice
    rw [hsplice]

theorem assembleWith_eq {d : EngineDef} {render : String → String} (hdash : render "-" = "-")
    {vars : ArgvVars} (h : ¬ d.Misread render vars) :
    d.assembleWith render vars = d.documentedWith render vars := by
  obtain ⟨hlast, hresume⟩ := not_or.mp h
  have hspliced := spliced_eq hdash hlast vars
  unfold assembleWith documentedWith
  dsimp only
  rw [hspliced]
  cases hsid : vars.sessionId with
  | none => rfl
  | some sid =>
      rw [hsid] at hresume
      cases hstyle : d.resume with
      | flag args => rfl
      | subcommand insert =>
          rw [hstyle] at hresume
          simp only [Option.isSome_some, true_and] at hresume
          obtain ⟨hfirst, hmisread⟩ := not_or.mp hresume
          -- the subcommand goes in behind the first base argument
          have hinsert : (d.baseArgs.map render ++ (d.groups render vars).flatten ++
              d.sentinel).insertIdx (min 1 (d.baseArgs.map render ++
                (d.groups render vars).flatten ++ d.sentinel).length) insert =
              d.resumedArgs render vars insert ++ d.sentinel := by
            unfold resumedArgs
            cases hbase : d.baseArgs with
            | nil =>
                have hnil : (d.groups render vars).flatten ++ d.sentinel = [] :=
                  not_not.mp fun hne => hfirst ⟨hbase, hne⟩
                obtain ⟨hgroups, hsentinel⟩ := List.append_eq_nil_iff.mp hnil
                rw [hgroups, hsentinel]
                rfl
            | cons a rest =>
                have hone : min 1 ((a :: rest).map render ++ (d.groups render vars).flatten ++
                    d.sentinel).length = 1 := Nat.min_eq_left (Nat.succ_pos _)
                rw [hone]
                simp
          dsimp only
          rw [hinsert]
          rcases d.sentinel_cases with hsentinel | hsentinel
          · rw [hsentinel, beforeSentinel_snoc, insertIdx_append]
          · have hpoint : beforeSentinel (d.resumedArgs render vars insert) =
                (d.resumedArgs render vars insert).length :=
              if_neg fun hlast => hmisread ⟨hsentinel, hlast⟩
            have hend := insertIdx_append (d.resumedArgs render vars insert) [] sid
            rw [List.append_nil] at hend
            rw [hsentinel, List.append_nil, hpoint, hend]

/-- What resuming a session adds to the arguments. -/
def resumeArgs (d : EngineDef) (render : String → String) (vars : ArgvVars) : List String :=
  match vars.sessionId with
  | none => []
  | some sid =>
      match d.resume with
      | .flag args => args.map render
      | .subcommand insert => [insert, sid]

theorem mem_documentedWith {d : EngineDef} {render : String → String} (hdash : render "-" = "-")
    {vars : ArgvVars} {a : String} :
    a ∈ d.documentedWith render vars ↔
      a ∈ d.args.map render ∨ a ∈ (d.groups render vars).flatten ∨ a ∈ d.resumeArgs render vars := by
  have hsentinel : d.sentinel.map render = d.sentinel := by
    rcases d.sentinel_cases with h | h
    · rw [h, List.map_singleton, hdash]
    · rw [h, List.map_nil]
  have hargs : a ∈ d.args.map render ↔ a ∈ d.baseArgs.map render ∨ a ∈ d.sentinel := by
    rw [d.args_eq, List.map_append, hsentinel, List.mem_append]
  rw [hargs]
  unfold documentedWith resumeArgs
  cases vars.sessionId with
  | none =>
      simp only [List.mem_append, List.not_mem_nil, or_false]
      exact or_right_comm
  | some sid =>
      cases d.resume with
      | flag args =>
          simp only [List.mem_append]
          exact iff_of_eq (by ac_rfl)
      | subcommand insert =>
          have hbase : a ∈ d.baseArgs.map render ↔
              a ∈ (d.baseArgs.map render).take 1 ∨ a ∈ (d.baseArgs.map render).drop 1 := by
            rw [← List.mem_append, List.take_append_drop]
          rw [hbase]
          simp only [resumedArgs, List.mem_append, List.mem_cons, List.not_mem_nil, or_false]
          exact iff_of_eq (by ac_rfl)

end EngineDef

/-! ## Literal arguments -/

def placeholders : List String :=
  [placeholderSessionId, placeholderModel, placeholderPermissionMode, placeholderSystemPrompt,
    placeholderEffort, placeholderAllowedTools, placeholderDisallowedTools]

theorem mem_bindings {vars : ArgvVars} {b : Template.Binding Char} (h : b ∈ vars.bindings) :
    ∃ p ∈ placeholders, b.placeholder = p.toList := by
  simp only [ArgvVars.bindings, List.mem_cons, List.not_mem_nil, or_false] at h
  rcases h with rfl | rfl | rfl | rfl | rfl | rfl | rfl
  · exact ⟨placeholderSessionId, by decide, rfl⟩
  · exact ⟨placeholderModel, by decide, rfl⟩
  · exact ⟨placeholderPermissionMode, by decide, rfl⟩
  · exact ⟨placeholderSystemPrompt, by decide, rfl⟩
  · exact ⟨placeholderEffort, by decide, rfl⟩
  · exact ⟨placeholderAllowedTools, by decide, rfl⟩
  · exact ⟨placeholderDisallowedTools, by decide, rfl⟩

/-- A text without placeholders. -/
def Literal (template : String) : Prop := ∀ p ∈ placeholders, ¬ p.toList <:+: template.toList

instance (template : String) : Decidable (Literal template) :=
  inferInstanceAs (Decidable (∀ p ∈ placeholders, ¬ p.toList <:+: template.toList))

theorem Literal.free {template : String} (h : Literal template) (vars : ArgvVars) :
    ∀ b ∈ vars.bindings, ¬ b.placeholder <:+: template.toList := by
  intro b hb
  obtain ⟨p, hp, heq⟩ := mem_bindings hb
  rw [heq]
  exact h p hp

theorem Literal.subst_eq {template : String} (h : Literal template) (vars : ArgvVars) :
    subst vars template = template := by
  unfold subst
  rw [Template.fill_literal (h.free vars), String.ofList_toList]

namespace EngineDef

theorem codex_not_misread (render : String → String) (vars : ArgvVars) :
    ¬ builtinCodex.Misread render vars := by
  have hsentinel : builtinCodex.sentinel ≠ [] := by decide
  have hbase : builtinCodex.baseArgs ≠ [] := by decide
  rintro (⟨h, -⟩ | ⟨-, ⟨h, -⟩ | ⟨h, -⟩⟩)
  · exact hsentinel h
  · exact hbase h
  · exact hsentinel h

theorem claude_not_misread {render : String → String} (h : render "--verbose" = "--verbose")
    (vars : ArgvVars) : ¬ builtinClaude.Misread render vars := by
  rintro (⟨-, hlast⟩ | ⟨-, h⟩)
  · have hlast : some (render "--verbose") = some "-" := hlast
    rw [h] at hlast
    exact absurd hlast (by decide)
  · exact h

/-- **Arguments stand in the documented order** where nothing is taken for the sentinel that
is not the definition's. -/
theorem assemble_argv_documented (d : EngineDef) (vars : ArgvVars)
    (h : ¬ d.Misread (subst vars) vars) :
    d.assembleArgv vars = d.documentedWith (subst vars) vars ∧
      (d.sentinel = ["-"] → (vars.sessionId = none ∨ ∃ insert, d.resume = .subcommand insert) →
        (d.assembleArgv vars).getLast? = some "-") := by
  have hdash : Literal "-" := by decide
  have horder : d.assembleArgv vars = d.documentedWith (subst vars) vars :=
    assembleWith_eq (hdash.subst_eq vars) h
  refine ⟨horder, fun hsentinel hlast => ?_⟩
  rw [horder]
  unfold documentedWith
  rw [hsentinel]
  rcases hlast with hnone | ⟨insert, hstyle⟩
  · rw [hnone]
    exact List.getLast?_concat ..
  · rw [hstyle]
    cases vars.sessionId with
    | none => exact List.getLast?_concat ..
    | some sid => simp

def resumedThread : ArgvVars :=
  { ArgvVars.default with sessionId := some "t1", model := some "gpt-5" }

/-- Codex resumes a session with a model. -/
theorem assemble_argv_documented_sample :
    ¬ builtinCodex.Misread (subst resumedThread) resumedThread ∧
      builtinCodex.assembleArgv resumedThread = ["exec", "resume", "--json",
        "--skip-git-repo-check", "--sandbox", "workspace-write", "--model", "gpt-5", "t1", "-"] := by
  refine ⟨codex_not_misread _ _, ?_⟩
  rw [(assemble_argv_documented _ _ (codex_not_misread _ _)).1]
  decide

/-- A session resumed by a flag stands behind the sentinel. -/
theorem resumed_after_sentinel : ¬ ∀ (d : EngineDef) (vars : ArgvVars),
    d.sentinel = ["-"] → (d.assembleArgv vars).getLast? = some "-" := by
  intro h
  have hlast := h { builtinCodex with resume := .flag ["--resume", placeholderSessionId] }
    { ArgvVars.default with sessionId := some "t1" } rfl
  exact absurd hlast (by decide)

end EngineDef

/-! ## Values in their places -/

/-- `subst`, if it filled all placeholders at once. -/
def substOnce (vars : ArgvVars) (template : String) : String :=
  String.ofList (Template.fillOnce vars.bindings template.toList)

/-- No placeholder occurs in another one. -/
theorem placeholders_apart : placeholders.Pairwise (fun p q =>
    ¬ p.toList <:+: q.toList ∧ ¬ q.toList <:+: p.toList) := by
  decide

theorem bindings_apart (vars : ArgvVars) : vars.bindings.Pairwise (fun b q =>
    ¬ b.placeholder <:+: q.placeholder ∧ ¬ q.placeholder <:+: b.placeholder) := by
  have hmap : vars.bindings.map Template.Binding.placeholder = placeholders.map String.toList := rfl
  have hpairs : (placeholders.map String.toList).Pairwise (fun p q => ¬ p <:+: q ∧ ¬ q <:+: p) :=
    List.pairwise_map.mpr placeholders_apart
  rw [← hmap, List.pairwise_map] at hpairs
  exact hpairs

theorem simple_placeholder {vars : ArgvVars} {b : Template.Binding Char} (hb : b ∈ vars.bindings) :
    Template.Simple vars.bindings b.placeholder := by
  obtain ⟨before, after, hsplit⟩ := List.append_of_mem hb
  have hpairs := bindings_apart vars
  rw [hsplit, List.pairwise_append, List.pairwise_cons] at hpairs
  refine .hole hsplit fun q hq => ?_
  rcases List.mem_append.mp hq with hq | hq
  · exact (hpairs.2.2 q hq b List.mem_cons_self).1
  · exact (hpairs.2.1.1 q hq).2

theorem quote_separates (vars : ArgvVars) : Template.Separates vars.bindings '"' := by
  have hquote : ∀ p ∈ placeholders, '"' ∉ p.toList := by decide
  intro b hb
  obtain ⟨p, hp, heq⟩ := mem_bindings hb
  rw [heq]
  exact hquote p hp

/-- One after the other, a value comes into its place with what is filled after it. -/
theorem subst_placeholder {vars : ArgvVars} {before after : List (Template.Binding Char)}
    {b : Template.Binding Char} (hsplit : vars.bindings = before ++ b :: after) :
    subst vars (String.ofList b.placeholder) = String.ofList (Template.fill after b.value) := by
  have hpairs := bindings_apart vars
  rw [hsplit, List.pairwise_append] at hpairs
  unfold subst
  rw [String.toList_ofList, hsplit, Template.fill_placeholder fun q hq => ?_]
  exact (hpairs.2.2 q hq b List.mem_cons_self).1

/-- At once, a value comes into its place as it is. -/
theorem substOnce_value {vars : ArgvVars} {b : Template.Binding Char} (hb : b ∈ vars.bindings) :
    substOnce vars (String.ofList b.placeholder) = String.ofList b.value := by
  obtain ⟨before, after, hsplit⟩ := List.append_of_mem hb
  have hpairs := bindings_apart vars
  rw [hsplit, List.pairwise_append, List.pairwise_cons] at hpairs
  unfold substOnce
  rw [String.toList_ofList, hsplit, Template.fillOnce_hole fun q hq => ?_]
  rcases List.mem_append.mp hq with hq | hq
  · exact (hpairs.2.2 q hq b List.mem_cons_self).1
  · exact (hpairs.2.1.1 q hq).2

namespace EngineDef

/-- The templates that values are filled into; those of the permission arguments are filled
apart, with the mode. -/
def templates (d : EngineDef) (vars : ArgvVars) : List String :=
  d.args ++ (d.optionalGroups vars).flatten ++
    match vars.sessionId, d.resume with
    | some _, .flag args => args
    | _, _ => []

/-- Every value is put in its place as it is, and nothing that a value has brought is
replaced. -/
structure CarriesVerbatim (d : EngineDef) (vars : ArgvVars) : Prop where
  in_place : d.assembleArgv vars = d.assembleWith (substOnce vars) vars
  untouched : ∀ t ∈ d.templates vars,
    Template.disturbs vars.bindings (Template.plain t.toList) = false

/-- No value that a template takes has a placeholder that is filled after it. -/
def ValuesApart (d : EngineDef) (vars : ArgvVars) : Prop :=
  vars.bindings.Pairwise (fun b q =>
    (∃ t ∈ d.templates vars, b.placeholder <:+: t.toList) → ¬ q.placeholder <:+: b.value)

theorem assembleWith_congr {d : EngineDef} {vars : ArgvVars} {render render' : String → String}
    (h : ∀ t ∈ d.templates vars, render t = render' t) :
    d.assembleWith render vars = d.assembleWith render' vars := by
  have hargs : d.args.map render = d.args.map render' := by
    refine List.map_congr_left fun t ht => h t ?_
    exact List.mem_append_left _ (List.mem_append_left _ ht)
  have hgroups : (d.optionalGroups vars).map (List.map render) =
      (d.optionalGroups vars).map (List.map render') := by
    refine List.map_congr_left fun g hg => List.map_congr_left fun t ht => h t ?_
    exact List.mem_append_left _ (List.mem_append_right _ (List.mem_flatten.mpr ⟨g, hg, ht⟩))
  unfold assembleWith groups
  rw [hargs, hgroups]
  cases hsid : vars.sessionId with
  | none => rfl
  | some sid =>
      cases hstyle : d.resume with
      | subcommand insert => rfl
      | flag args =>
          have hresume : args.map render = args.map render' := by
            refine List.map_congr_left fun t ht => h t (List.mem_append_right _ ?_)
            rw [hsid, hstyle]
            exact ht
          dsimp only
          rw [hresume]

theorem valuesApart_iff {d : EngineDef} {vars : ArgvVars} :
    d.ValuesApart vars ↔ ∀ t ∈ d.templates vars, Template.Apart vars.bindings t.toList := by
  unfold ValuesApart Template.Apart
  constructor
  · exact fun h t ht => h.imp fun hbq hbt => hbq ⟨t, ht, hbt⟩
  · intro h
    rw [List.pairwise_iff_getElem]
    rintro i j hi hj hij ⟨t, ht, hbt⟩
    exact List.pairwise_iff_getElem.mp (h t ht) i j hi hj hij hbt

theorem carriesVerbatim_iff {d : EngineDef} {vars : ArgvVars}
    (h : ∀ t ∈ d.templates vars, Template.Simple vars.bindings t.toList) :
    d.CarriesVerbatim vars ↔ d.ValuesApart vars := by
  rw [valuesApart_iff]
  constructor
  · exact fun hcarries t ht => (h t ht).apart_iff.mp (hcarries.untouched t ht)
  · intro hapart
    constructor
    · refine assembleWith_congr fun t ht => ?_
      unfold subst substOnce
      rw [(h t ht).fill_eq (hapart t ht)]
    · exact fun t ht => (h t ht).apart_iff.mpr (hapart t ht)

end EngineDef

/-- The engine definitions of the core. -/
inductive Shipped where
  | claude
  | codex

def Shipped.engineDef : Shipped → EngineDef
  | .claude => builtinClaude
  | .codex => builtinCodex

theorem simple_of_literal {template : String} (h : Literal template) (vars : ArgvVars) :
    Template.Simple vars.bindings template.toList := .literal (h.free vars)

def effortTemplate : String := "model_reasoning_effort=\"\x7b\x7beffort\x7d\x7d\""

theorem simple_effort (vars : ArgvVars) :
    Template.Simple vars.bindings effortTemplate.toList := by
  have hname : Literal "model_reasoning_effort=" := by decide
  have hnothing : Literal "" := by decide
  have heffort := @simple_placeholder vars
    ⟨placeholderEffort.toList, (vars.effort.getD "").toList, by decide⟩ (by simp [ArgvVars.bindings])
  exact .sep (quote_separates vars) (simple_of_literal hname vars)
    (.sep (quote_separates vars) heffort (simple_of_literal hnothing vars))

/-- All templates of a definition. -/
def EngineDef.allTemplates (d : EngineDef) : List String :=
  d.args ++ ([d.systemPromptArgs, d.modelArgs, d.effortArgs, d.allowedToolsArgs,
    d.disallowedToolsArgs].map (fun t => t.getD [])).flatten ++
    match d.resume with
    | .flag args => args
    | .subcommand _ => []

theorem EngineDef.templates_subset {d : EngineDef} {vars : ArgvVars} {t : String}
    (h : t ∈ d.templates vars) : t ∈ d.allTemplates := by
  have hoptional : ∀ (enabled : Bool) (template : Option (List String)),
      t ∈ optional enabled template → t ∈ template.getD [] := by
    intro enabled template ht
    cases enabled with
    | true => exact ht
    | false => cases ht
  rcases List.mem_append.mp h with h | h
  · rcases List.mem_append.mp h with h | h
    · exact List.mem_append_left _ (List.mem_append_left _ h)
    · refine List.mem_append_left _ (List.mem_append_right _ ?_)
      simp only [optionalGroups, List.flatten_cons, List.flatten_nil, List.mem_append] at h
      simp only [List.map_cons, List.flatten_cons, List.map_nil, List.flatten_nil,
        List.mem_append]
      rcases h with h | h | h | h | h | h
      · exact .inl (hoptional _ _ h)
      · exact .inr (.inl (hoptional _ _ h))
      · exact .inr (.inr (.inl (hoptional _ _ h)))
      · exact .inr (.inr (.inr (.inl (hoptional _ _ h))))
      · exact .inr (.inr (.inr (.inr (.inl (hoptional _ _ h)))))
      · cases h
  · refine List.mem_append_right _ ?_
    cases hstyle : d.resume with
    | flag args =>
        rw [hstyle] at h
        cases hsid : vars.sessionId with
        | none =>
            rw [hsid] at h
            cases h
        | some sid =>
            rw [hsid] at h
            exact h
    | subcommand insert =>
        rw [hstyle] at h
        cases hsid : vars.sessionId <;> rw [hsid] at h <;> cases h

theorem Shipped.templates_cases (e : Shipped) : ∀ t ∈ e.engineDef.allTemplates,
    Literal t ∨ t ∈ placeholders ∨ t = effortTemplate := by
  cases e
  · decide
  · decide

theorem Shipped.simple (e : Shipped) (vars : ArgvVars) :
    ∀ t ∈ e.engineDef.templates vars, Template.Simple vars.bindings t.toList := by
  intro t ht
  rcases e.templates_cases t (EngineDef.templates_subset ht) with hliteral | hplace | rfl
  · exact simple_of_literal hliteral vars
  · have hmap : vars.bindings.map Template.Binding.placeholder = placeholders.map String.toList :=
      rfl
    have hmem : t.toList ∈ vars.bindings.map Template.Binding.placeholder :=
      hmap ▸ List.mem_map_of_mem hplace
    obtain ⟨b, hb, heq⟩ := List.mem_map.mp hmem
    rw [← heq]
    exact simple_placeholder hb
  · exact simple_effort vars

/-- **Values are passed verbatim** exactly when none of them has a placeholder that is filled
after its own. -/
theorem carries_verbatim (e : Shipped) (vars : ArgvVars) :
    e.engineDef.CarriesVerbatim vars ↔ e.engineDef.ValuesApart vars :=
  EngineDef.carriesVerbatim_iff (e.simple vars)

/-- A system prompt that names a placeholder loses it. -/
theorem prompt_rewritten : ¬ ∀ (e : Shipped) (vars : ArgvVars),
    e.engineDef.CarriesVerbatim vars := by
  intro h
  have hargv := (h .claude { ArgvVars.default with
    systemPrompt := some "\x7b\x7beffort\x7d\x7d" }).in_place
  exact absurd hargv (by decide)

end Stackhour.Core
