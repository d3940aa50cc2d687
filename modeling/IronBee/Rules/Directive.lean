import IronBee.Rules.Operator

/-! # `parse_inputs`, `parse_modifier` and the `Rule` and `RuleExt` directives

A `Rule` directive gives an input list, an operator and modifiers; a `RuleExt` directive a
script and modifiers. Each is parsed into a rule that is then registered with the engine.
-/

namespace IronBee.Rules

/-! ## `parse_inputs` -/

/-- The delimiters `strtok` splits a rule's input list at. -/
def inputDelims : List Char := ['|', ',']

/-- The `strtok` loop of `parse_inputs`, returning the first failure of `ib_rule_add_input`; `fuel`,
one more than the length, is never exhausted. -/
def addInputsFuel (eng : Engine) : Nat → List Char → Rule → Status × Rule
  | 0, _, rule => (.ok, rule)
  | fuel + 1, rest, rule =>
    match strtok inputDelims rest with
    | none => (.ok, rule)
    | some (cur, rest) =>
      if eng.addInput cur = .ok then
        addInputsFuel eng fuel rest { rule with inputs := rule.inputs ++ [cur] }
      else (eng.addInput cur, rule)

/-- `parse_inputs(cp, rule, input_str)`: its status and the rule after it. -/
def parseInputs (eng : Engine) (rule : Rule) (inputStr : List Char) : Status × Rule :=
  let s := inputStr.dropWhile isSpace
  if s = [] then (.einval, rule)
  else if !eng.strdup s then (.ealloc, rule)
  else addInputsFuel eng (s.length + 1) s rule

theorem addInputsFuel_of_addInput {eng : Engine} (hadd : ∀ name, eng.addInput name = .ok) :
    ∀ {fuel : Nat} {s : List Char} (rule : Rule), s.length < fuel →
      addInputsFuel eng fuel s rule = (.ok, { rule with inputs := rule.inputs ++ runs inputDelims s })
  | 0, _, _, h => absurd h (Nat.not_lt_zero _)
  | fuel + 1, s, rule, h => by
    unfold addInputsFuel
    split
    · rename_i hs
      rw [runs_of_strtok_none hs, List.append_nil]
    · rename_i cur rest hs
      rw [if_pos (hadd cur), addInputsFuel_of_addInput hadd _
        (by have := strtok_length_lt hs; omega), runs_of_strtok_some hs]
      simp

/-- `parse_inputs` adds the runs of non-separators of its input list, or fails on a blank list or a
failed copy. -/
theorem parseInputs_adds_runs {eng : Engine} (hadd : ∀ name, eng.addInput name = .ok)
    (rule : Rule) (s : List Char) :
    parseInputs eng rule s =
      if s.dropWhile isSpace = [] then (.einval, rule)
      else if eng.strdup (s.dropWhile isSpace) = false then (.ealloc, rule)
      else (.ok, { rule with inputs := rule.inputs ++ runs inputDelims (s.dropWhile isSpace) }) := by
  unfold parseInputs
  dsimp only
  by_cases h₀ : s.dropWhile isSpace = []
  · rw [if_pos h₀, if_pos h₀]
  rw [if_neg h₀, if_neg h₀]
  cases eng.strdup (s.dropWhile isSpace)
  · rfl
  · exact addInputsFuel_of_addInput hadd rule (Nat.lt_succ_self _)

theorem parseInputs_adds_runs_accepting :
    parseInputs Engine.accepting Rule.empty " ARGS|REQUEST_HEADERS,,".toList =
      if " ARGS|REQUEST_HEADERS,,".toList.dropWhile isSpace = [] then (.einval, Rule.empty)
      else if Engine.accepting.strdup (" ARGS|REQUEST_HEADERS,,".toList.dropWhile isSpace) = false
        then (.ealloc, Rule.empty)
      else (.ok, { Rule.empty with
        inputs := Rule.empty.inputs ++
          runs inputDelims (" ARGS|REQUEST_HEADERS,,".toList.dropWhile isSpace) }) :=
  parseInputs_adds_runs (fun _ => rfl) Rule.empty _

example : runs inputDelims "ARGS|REQUEST_HEADERS,,".toList =
    ["ARGS".toList, "REQUEST_HEADERS".toList] := by
  decide

/-! ## `parse_modifier` -/

/-- `ib_rule_phase_t`, the phase a rule runs in. -/
inductive Phase where
  | none
  | requestHeader
  | requestBody
  | responseHeader
  | responseBody
  | postprocess
  deriving DecidableEq, Repr

/-- The `PHASE` modifier's values, compared with `strcasecmp`. -/
def phaseOf (value : List Char) : Option Phase :=
  if strcaseeq value "REQUEST_HEADER".toList then some .requestHeader
  else if strcaseeq value "REQUEST".toList then some .requestBody
  else if strcaseeq value "RESPONSE_HEADER".toList then some .responseHeader
  else if strcaseeq value "RESPONSE".toList then some .responseBody
  else if strcaseeq value "POSTPROCESS".toList then some .postprocess
  else if strcaseeq value "NONE".toList then some Phase.none
  else Option.none

/-- The split of a modifier at `strchr(copy, ':')` when something follows the colon: the name, and
the value past its leading whitespace (`NULL` when empty). -/
def splitModifier (s : List Char) : List Char × Option (List Char) :=
  match s.span (· != ':') with
  | (name, ':' :: c :: rest) =>
    let value := (c :: rest).dropWhile isSpace
    (name, if value = [] then Option.none else some value)
  | _ => (s, Option.none)

/-- The action modifiers: `ib_action_inst_create`, then `ib_rule_add_action`, with a leading
`!` making a `RULE_ACTION_FALSE` action. -/
def addAction (eng : Engine) (rule : Rule) (name : List Char) (value : Option (List Char)) :
    Status × Rule :=
  let (name, onTrue) := match name with
    | '!' :: rest => (rest, false)
    | name => (name, true)
  if eng.actionInstCreate name value ≠ .ok then (eng.actionInstCreate name value, rule)
  else if eng.addAction ≠ .ok then (eng.addAction, rule)
  else (.ok, { rule with actions := rule.actions ++ [(name, value, onTrue)] })

/-- `parse_modifier(cp, rule, &phase, modifier_str)`: its status, the rule and the phase. -/
def parseModifier (eng : Engine) (rule : Rule) (phase : Phase) (s : List Char) :
    Status × Rule × Phase :=
  if !eng.strdup s then (.ealloc, rule, phase) else
  let (name, value) := splitModifier s
  if strcaseeq name "id".toList then
    match value with
    | Option.none => (.einval, rule, phase)
    | some v => (.ok, { rule with id := some v }, phase)
  else if strcaseeq name "phase".toList then
    match value.bind phaseOf with
    | Option.none => (.einval, rule, phase)
    | some p => (.ok, rule, p)
  else if strcaseeq name "chain".toList then (.ok, { rule with chain := true }, phase)
  else
    let (rc, rule) := addAction eng rule name value
    (rc, rule, phase)

/-- The loop over a directive's modifiers, stopping at the first that fails. -/
def parseModifiers (eng : Engine) : List (List Char) → Rule → Phase → Except Status (Rule × Phase)
  | [], rule, phase => .ok (rule, phase)
  | m :: ms, rule, phase =>
    let (rc, rule, phase) := parseModifier eng rule phase m
    if rc = .ok then parseModifiers eng ms rule phase else .error rc

/-! ## The directives -/

/-- `rules_rule_params(cp, name, vars, cbdata)`: the rule it registers and its phase, or the
status it fails with. -/
def rulesRuleParams (eng : Engine) : List (List Char) → Except Status (Rule × Phase)
  | inputs :: op :: mods => do
    if eng.ruleCreate ≠ .ok then throw eng.ruleCreate
    let (rc, rule) := parseInputs eng Rule.empty inputs
    if rc ≠ .ok then throw rc
    let (rc, rule) := parseOperator eng rule op
    if rc ≠ .ok then throw rc
    let (rule, phase) ← parseModifiers eng mods rule Phase.none
    if eng.register ≠ .ok then throw eng.register
    pure (rule, phase)
  | _ => throw .einval

/-- `rules_ruleext_params(cp, name, vars, cbdata)`: an external rule whose operator is the
Lua function the script defines. -/
def rulesRuleExtParams (eng : Engine) : List (List Char) → Except Status (Rule × Phase)
  | [] => throw .einval
  | fileName :: mods => do
    if eng.ruleCreate ≠ .ok then throw eng.ruleCreate
    let (rule, phase) ← parseModifiers eng mods { Rule.empty with external := true } Phase.none
    if !strcaseeq (fileName.take 4) "lua:".toList then throw .einval
    if eng.luaLoadFunc ≠ .ok then throw eng.luaLoadFunc
    if eng.operatorRegister ≠ .ok then throw eng.operatorRegister
    let (rc, rule) := attachOperator eng rule ⟨fileName, Option.none, false⟩
    if rc ≠ .ok then throw rc
    if eng.register ≠ .ok then throw eng.register
    pure (rule, phase)

/-- An input list of separators only is accepted, with no input added. -/
theorem separator_inputs_accepted :
    parseInputs Engine.accepting Rule.empty "|".toList = (.ok, Rule.empty) ∧
    (rulesRuleParams Engine.accepting ["|".toList, "@rx a".toList]).toOption.map
      (fun r => (r.1.inputs, r.1.external)) = some ([], false) := by
  decide

end IronBee.Rules
