import IronBee.Rules.Directive

/-! # What a directive's modifiers mean

`parse_modifier` reads a modifier string as one of four requests: an `ID` with its value, a
`PHASE` with one of the six phase names, `CHAIN`, or an action, a leading `!` making one that
runs when the rule is false. Read this way, the loop over a directive's modifiers is a fold,
and the rule a `Rule` or `RuleExt` directive registers follows from it: the last `ID` and the
last `PHASE` win, any `CHAIN` sets the chain flag, and the actions are attached in the order
they are written. An `ID` or a `PHASE` without a valid value fails the directive with
`IB_EINVAL`.
-/

namespace IronBee.Rules

inductive Modifier where
  | id (value : List Char)
  | phase (p : Phase)
  | chain
  | action (name : List Char) (value : Option (List Char)) (onTrue : Bool)
  deriving DecidableEq, Repr

/-- The modifier a string names, read as `parse_modifier` reads it; `none` for an `ID`
without a value and for a `PHASE` without one of the six names. -/
def readModifier (s : List Char) : Option Modifier :=
  let (name, value) := splitModifier s
  if strcaseeq name "id".toList then value.map .id
  else if strcaseeq name "phase".toList then (value.bind phaseOf).map .phase
  else if strcaseeq name "chain".toList then some .chain
  else match name with
    | '!' :: rest => some (.action rest value false)
    | name => some (.action name value true)

/-- The modifiers a directive's strings name, or `none` when one of them names none. -/
def readModifiers : List (List Char) → Option (List Modifier)
  | [] => some []
  | s :: ss => (readModifier s).bind fun m => (readModifiers ss).map fun ms => m :: ms

/-- What a modifier does to the rule and the phase it is registered in. -/
def Modifier.apply : Modifier → Rule × Phase → Rule × Phase
  | .id v, (r, ph) => ({ r with id := some v }, ph)
  | .phase p, (r, _) => (r, p)
  | .chain, (r, ph) => ({ r with chain := true }, ph)
  | .action name value onTrue, (r, ph) =>
    ({ r with actions := r.actions ++ [(name, value, onTrue)] }, ph)

def Modifier.idValue : Modifier → Option (List Char)
  | .id v => some v
  | _ => none

def Modifier.phaseValue : Modifier → Option Phase
  | .phase p => some p
  | _ => none

def Modifier.actionOf : Modifier → Option (List Char × Option (List Char) × Bool)
  | .action name value onTrue => some (name, value, onTrue)
  | _ => none

/-- An engine whose every call the directive parsers make succeeds. -/
structure Engine.Succeeds (eng : Engine) : Prop where
  strdup : ∀ s, eng.strdup s = true
  ruleCreate : eng.ruleCreate = .ok
  addInput : ∀ name, eng.addInput name = .ok
  operatorInstCreate : ∀ req, eng.operatorInstCreate req = .ok
  setOperator : eng.setOperator = .ok
  actionInstCreate : ∀ name value, eng.actionInstCreate name value = .ok
  addAction : eng.addAction = .ok
  register : eng.register = .ok
  luaLoadFunc : eng.luaLoadFunc = .ok
  operatorRegister : eng.operatorRegister = .ok

theorem Engine.accepting_succeeds : Engine.accepting.Succeeds :=
  ⟨fun _ => rfl, rfl, fun _ => rfl, fun _ => rfl, rfl, fun _ _ => rfl, rfl, rfl, rfl, rfl⟩

section Succeeds

variable {eng : Engine} (heng : eng.Succeeds)
include heng

theorem parseModifier_read (rule : Rule) (phase : Phase) (s : List Char) :
    parseModifier eng rule phase s = match readModifier s with
      | none => (.einval, rule, phase)
      | some m => (.ok, m.apply (rule, phase)) := by
  unfold parseModifier readModifier
  rw [heng.strdup, Bool.not_true, if_neg Bool.false_ne_true]
  obtain ⟨name, value⟩ := splitModifier s
  dsimp only
  split_ifs
  · cases value <;> simp [Modifier.apply]
  · cases value.bind phaseOf <;> simp [Modifier.apply]
  · rfl
  · unfold addAction
    rcases name with _ | ⟨c, rest⟩
    · simp [heng.actionInstCreate, heng.addAction, Modifier.apply]
    · by_cases hc : c = '!'
      · subst hc
        simp [heng.actionInstCreate, heng.addAction, Modifier.apply]
      · simp [hc, heng.actionInstCreate, heng.addAction, Modifier.apply]

theorem parseModifiers_read : ∀ (mods : List (List Char)) (rule : Rule) (phase : Phase),
    parseModifiers eng mods rule phase = match readModifiers mods with
      | none => .error .einval
      | some ms => .ok (ms.foldl (fun acc m => m.apply acc) (rule, phase))
  | [], _, _ => rfl
  | s :: ss, rule, phase => by
    rw [parseModifiers, parseModifier_read heng, readModifiers]
    cases readModifier s with
    | none => rfl
    | some m =>
      dsimp only
      rw [if_pos rfl, parseModifiers_read ss, Option.some_bind]
      cases readModifiers ss <;> rfl

end Succeeds

theorem foldl_apply : ∀ (ms : List Modifier) (rule : Rule) (phase : Phase),
    ms.foldl (fun acc m => m.apply acc) (rule, phase) =
      ({ rule with
          id := (ms.filterMap Modifier.idValue).getLast?.or rule.id
          chain := rule.chain || decide (.chain ∈ ms)
          actions := rule.actions ++ ms.filterMap Modifier.actionOf },
        (ms.filterMap Modifier.phaseValue).getLastD phase)
  | [], rule, phase => by simp
  | m :: ms, rule, phase => by
    rw [List.foldl_cons]
    cases m <;> rw [Modifier.apply, foldl_apply ms] <;>
      simp only [List.filterMap_cons, Modifier.idValue, Modifier.phaseValue, Modifier.actionOf,
        List.getLastD_cons, List.getLast?_cons]
    all_goals cases (ms.filterMap Modifier.idValue).getLast? <;> simp

/-! ## The rules the directives register -/

/-- A `Rule` directive registers the rule its inputs, operator and modifiers describe, the last `ID`
and `PHASE` winning. -/
theorem rulesRuleParams_modifiers (eng : Engine) (heng : eng.Succeeds) (inputs op : List Char)
    (mods : List (List Char)) (hin : inputs.dropWhile isSpace ≠ []) (req : OperatorRequest)
    (hop : operatorRequest eng op = .ok req) :
    rulesRuleParams eng (inputs :: op :: mods) = match readModifiers mods with
      | none => .error .einval
      | some ms => .ok (⟨runs inputDelims (inputs.dropWhile isSpace), some req,
          (ms.filterMap Modifier.idValue).getLast?, decide (.chain ∈ ms), false,
          ms.filterMap Modifier.actionOf⟩, (ms.filterMap Modifier.phaseValue).getLastD .none) := by
  have hpi : parseInputs eng Rule.empty inputs =
      (.ok, { Rule.empty with inputs := runs inputDelims (inputs.dropWhile isSpace) }) := by
    rw [parseInputs]
    dsimp only
    rw [if_neg hin, heng.strdup, Bool.not_true, if_neg Bool.false_ne_true,
      addInputsFuel_of_addInput heng.addInput _ (Nat.lt_succ_self _)]
    rfl
  simp only [rulesRuleParams, heng.ruleCreate, hpi, parseOperator, hop, attachOperator,
    heng.operatorInstCreate, heng.setOperator, parseModifiers_read heng, heng.register]
  cases readModifiers mods <;> simp [foldl_apply, Rule.empty]

theorem rulesRuleParams_modifiers_last_phase :
    rulesRuleParams Engine.accepting ["ARGS".toList, "@rx a".toList,
        "phase:REQUEST".toList, "id:1".toList, "PHASE:response".toList, "!block".toList] =
      match readModifiers ["phase:REQUEST".toList, "id:1".toList, "PHASE:response".toList,
          "!block".toList] with
      | none => .error .einval
      | some ms => .ok (⟨runs inputDelims ("ARGS".toList.dropWhile isSpace),
          some ⟨"rx".toList, some "a".toList, false⟩,
          (ms.filterMap Modifier.idValue).getLast?, decide (.chain ∈ ms), false,
          ms.filterMap Modifier.actionOf⟩, (ms.filterMap Modifier.phaseValue).getLastD .none) :=
  rulesRuleParams_modifiers Engine.accepting Engine.accepting_succeeds _ _ _ (by decide) _ rfl

/-- A `RuleExt` directive reads its modifiers before it checks for a `lua:` script, then registers
the external rule they describe. -/
theorem rulesRuleExtParams_modifiers (eng : Engine) (heng : eng.Succeeds)
    (fileName : List Char) (mods : List (List Char)) :
    rulesRuleExtParams eng (fileName :: mods) = match readModifiers mods with
      | none => .error .einval
      | some ms =>
        if strcaseeq (fileName.take 4) "lua:".toList then
          .ok (⟨[], some ⟨fileName, none, false⟩, (ms.filterMap Modifier.idValue).getLast?,
            decide (.chain ∈ ms), true, ms.filterMap Modifier.actionOf⟩,
            (ms.filterMap Modifier.phaseValue).getLastD .none)
        else .error .einval := by
  simp only [rulesRuleExtParams, heng.ruleCreate, parseModifiers_read heng, heng.luaLoadFunc,
    heng.operatorRegister, attachOperator, heng.operatorInstCreate, heng.setOperator,
    heng.register]
  cases readModifiers mods with
  | none => rfl
  | some ms =>
    have hf : ms.foldl (fun acc m => m.apply acc) (⟨Rule.empty.inputs, Rule.empty.operator,
        Rule.empty.id, Rule.empty.chain, true, Rule.empty.actions⟩, .none) =
        (⟨[], none, (ms.filterMap Modifier.idValue).getLast?, decide (.chain ∈ ms), true,
          ms.filterMap Modifier.actionOf⟩, (ms.filterMap Modifier.phaseValue).getLastD .none) := by
      rw [foldl_apply]
      simp [Rule.empty]
    dsimp only
    rw [hf]
    cases strcaseeq (fileName.take 4) "lua:".toList <;> rfl

theorem rulesRuleExtParams_modifiers_lua :
    rulesRuleExtParams Engine.accepting ["lua:/r.lua".toList, "id:7".toList, "chain".toList] =
      match readModifiers ["id:7".toList, "chain".toList] with
      | none => .error .einval
      | some ms =>
        if strcaseeq ("lua:/r.lua".toList.take 4) "lua:".toList then
          .ok (⟨[], some ⟨"lua:/r.lua".toList, none, false⟩,
            (ms.filterMap Modifier.idValue).getLast?, decide (.chain ∈ ms), true,
            ms.filterMap Modifier.actionOf⟩, (ms.filterMap Modifier.phaseValue).getLastD .none)
        else .error .einval :=
  rulesRuleExtParams_modifiers Engine.accepting Engine.accepting_succeeds _ _

end IronBee.Rules
