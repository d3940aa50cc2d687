import IronBee.Rules.CString

/-! # Rules and `parse_operator`

The parts of a rule the directive parsers set, the engine calls they make, and the parser
of a rule's operator string. The engine's own functions (`ib_rule_add_input`,
`ib_operator_inst_create` and the rest) are not modelled; an `Engine` gives the status
each of them returns.
-/

namespace IronBee.Rules

/-- What `parse_operator` passes to `ib_operator_inst_create`: the operator's name, its
argument string (`NULL` as `none`) and whether `IB_OPINST_FLAG_INVERT` is set. -/
structure OperatorRequest where
  name : List Char
  args : Option (List Char)
  invert : Bool
  deriving DecidableEq, Repr

/-- The parts of an `ib_rule_t` the directive parsers set. An action is kept with its name,
its value and whether it runs when the rule is true (`RULE_ACTION_TRUE`). -/
structure Rule where
  inputs : List (List Char)
  operator : Option OperatorRequest
  id : Option (List Char)
  chain : Bool
  external : Bool
  actions : List (List Char × Option (List Char) × Bool)
  deriving DecidableEq, Repr

/-- A rule as `ib_rule_create` makes it. -/
def Rule.empty : Rule := ⟨[], none, none, false, false, []⟩

/-- The status each engine call of the directive parsers returns; `strdup s` is whether
`ib_mpool_strdup` of `s` from the rule pool returns a copy rather than `NULL`. -/
structure Engine where
  strdup : List Char → Bool
  ruleCreate : Status
  addInput : List Char → Status
  operatorInstCreate : OperatorRequest → Status
  setOperator : Status
  actionInstCreate : List Char → Option (List Char) → Status
  addAction : Status
  register : Status
  luaLoadFunc : Status
  operatorRegister : Status

def Engine.accepting : Engine :=
  ⟨fun _ => true, .ok, fun _ => .ok, fun _ => .ok, .ok, fun _ _ => .ok, .ok, .ok, .ok, .ok⟩

/-! ## `parse_operator` -/

/-- The `for` loop that looks for a leading `!` and the `@`: whether a `!` was seen and the text
after the `@`, or `none` at any other non-blank character. -/
def scanOperator : List Char → Bool → Option (Bool × Option (List Char))
  | [], bang => some (bang, none)
  | c :: cs, bang =>
    if !bang && c == '!' then scanOperator cs true
    else if c == '@' then some (bang, some cs)
    else if isBlank c then scanOperator cs bang
    else none

/-- The loop that overwrites the trailing spaces of the argument string with NUL; it stops
at the argument's first character. -/
def stripTrailingSpaces : List Char → List Char
  | [] => []
  | c :: cs => c :: cs.rdropWhile (· == ' ')

/-- `parse_operator` up to `ib_operator_inst_create`: the request, `IB_EINVAL` outside the grammar,
or `IB_EALLOC` when the copy of the text after the `@` fails. -/
def operatorRequest (eng : Engine) (str : List Char) : Except Status OperatorRequest :=
  match scanOperator str false with
  | some (bang, some t@(_ :: _)) =>
    if !eng.strdup t then .error .ealloc else
    match t.span (· != ' ') with
    | (op, []) => .ok ⟨op, none, bang⟩
    | (op, space) =>
      let args := stripTrailingSpaces (space.dropWhile isSpace)
      .ok ⟨op, if args = [] then none else some args, bang⟩
  | _ => .error .einval

/-- `ib_operator_inst_create` with the request, then `ib_rule_set_operator`. -/
def attachOperator (eng : Engine) (rule : Rule) (req : OperatorRequest) : Status × Rule :=
  if eng.operatorInstCreate req ≠ .ok then (eng.operatorInstCreate req, rule)
  else if eng.setOperator ≠ .ok then (eng.setOperator, rule)
  else (.ok, { rule with operator := some req })

/-- `parse_operator(cp, rule, str)`: its status and the rule after it. -/
def parseOperator (eng : Engine) (rule : Rule) (str : List Char) : Status × Rule :=
  match operatorRequest eng str with
  | .error rc => (rc, rule)
  | .ok req => attachOperator eng rule req

/-! ## The grammar it accepts -/

/-- The operator strings `blank* ('!' blank*)? '@' t` with `t` non-empty; `invert` is
whether the `!` is there. -/
def OperatorForm (s : List Char) (invert : Bool) (t : List Char) : Prop :=
  t ≠ [] ∧ ∃ b₁ b₂ : List Char, (∀ c ∈ b₁, isBlank c) ∧ (∀ c ∈ b₂, isBlank c) ∧
    s = b₁ ++ (if invert then '!' :: b₂ else b₂) ++ '@' :: t

/-- The request described for the text `t` after the `@`: its name up to the first space, and the
rest, trimmed, as arguments if anything is left. -/
def describedRequest (invert : Bool) (t : List Char) : OperatorRequest :=
  let args := (((t.dropWhile (· != ' ')).drop 1).dropWhile isSpace).rdropWhile (· == ' ')
  ⟨t.takeWhile (· != ' '), if args = [] then none else some args, invert⟩

theorem isBlank_ne {c : Char} (h : isBlank c) : c ≠ '!' ∧ c ≠ '@' := by
  simp only [isBlank, Bool.or_eq_true, decide_eq_true_eq] at h
  rcases h with rfl | rfl <;> decide

theorem scanOperator_bang (cs : List Char) : scanOperator ('!' :: cs) false = scanOperator cs true :=
  rfl

theorem scanOperator_at (cs : List Char) (bang : Bool) :
    scanOperator ('@' :: cs) bang = some (bang, some cs) := by
  cases bang <;> rfl

theorem scanOperator_blank {c : Char} (hc : isBlank c) (cs : List Char) (bang : Bool) :
    scanOperator (c :: cs) bang = scanOperator cs bang := by
  obtain ⟨hbang, hat⟩ := isBlank_ne hc
  simp [scanOperator, hbang, hat, hc]

theorem scanOperator_blanks {b : List Char} (hb : ∀ c ∈ b, isBlank c) (rest : List Char)
    (bang : Bool) : scanOperator (b ++ rest) bang = scanOperator rest bang := by
  induction b with
  | nil => rfl
  | cons c cs ih =>
    rw [List.cons_append, scanOperator_blank (hb c (List.mem_cons_self _ _))]
    exact ih fun c hc => hb c (List.mem_cons_of_mem _ hc)

theorem scanOperator_of_form {s t : List Char} {invert : Bool}
    (h : OperatorForm s invert t) : scanOperator s false = some (invert, some t) := by
  obtain ⟨-, b₁, b₂, hb₁, hb₂, rfl⟩ := h
  rw [List.append_assoc, scanOperator_blanks hb₁]
  cases invert
  · rw [if_neg (by decide), scanOperator_blanks hb₂, scanOperator_at]
  · rw [if_pos rfl, List.cons_append, scanOperator_bang, scanOperator_blanks hb₂,
      scanOperator_at]

theorem scanOperator_some :
    ∀ {s : List Char} {bang invert : Bool} {t : List Char},
      scanOperator s bang = some (invert, some t) →
      (bang → invert) ∧ ∃ b₁ b₂ : List Char, (∀ c ∈ b₁, isBlank c) ∧ (∀ c ∈ b₂, isBlank c) ∧
        s = b₁ ++ (if invert && !bang then '!' :: b₂ else b₂) ++ '@' :: t
  | [], bang, invert, t, h => by simp [scanOperator] at h
  | c :: cs, bang, invert, t, h => by
    unfold scanOperator at h
    split_ifs at h with hbang hat hb
    · obtain ⟨hinv, b₁, b₂, hb₁, hb₂, rfl⟩ := scanOperator_some h
      simp only [Bool.and_eq_true, Bool.not_eq_true', beq_iff_eq] at hbang
      obtain ⟨rfl, rfl⟩ := hbang
      refine ⟨by simp, [], b₁ ++ b₂, by simp, ?_, ?_⟩
      · intro c hc
        rcases List.mem_append.mp hc with hc | hc
        exacts [hb₁ c hc, hb₂ c hc]
      · simp [hinv rfl]
    · simp only [Option.some.injEq, Prod.mk.injEq] at h
      obtain ⟨rfl, rfl⟩ := h
      simp only [beq_iff_eq] at hat
      refine ⟨id, [], [], by simp, by simp, ?_⟩
      simp [hat]
    · obtain ⟨hinv, b₁, b₂, hb₁, hb₂, rfl⟩ := scanOperator_some h
      refine ⟨hinv, c :: b₁, b₂, ?_, hb₂, rfl⟩
      intro d hd
      rcases List.mem_cons.mp hd with rfl | hd
      exacts [hb, hb₁ d hd]

theorem stripTrailingSpaces_dropWhile (l : List Char) :
    stripTrailingSpaces (l.dropWhile isSpace) = (l.dropWhile isSpace).rdropWhile (· == ' ') := by
  induction l with
  | nil => rfl
  | cons c cs ih =>
    by_cases hc : isSpace c
    · rw [List.dropWhile_cons_of_pos hc, ih]
    · rw [List.dropWhile_cons_of_neg hc, stripTrailingSpaces, rdropWhile_cons_of_neg]
      intro h
      simp only [beq_iff_eq] at h
      exact hc (h ▸ rfl)

theorem operatorRequest_of_scan (eng : Engine) {s t : List Char} {invert : Bool} (ht : t ≠ [])
    (h : scanOperator s false = some (invert, some t)) :
    operatorRequest eng s =
      if eng.strdup t then .ok (describedRequest invert t) else .error .ealloc := by
  obtain ⟨c, cs, rfl⟩ := List.exists_cons_of_ne_nil ht
  unfold operatorRequest
  rw [h]
  dsimp only
  cases eng.strdup (c :: cs)
  · rfl
  rw [Bool.not_true, if_neg Bool.false_ne_true, if_pos rfl, List.span_eq_take_drop]
  cases hr : (c :: cs).dropWhile (· != ' ') with
  | nil => simp [describedRequest, hr]
  | cons d ds =>
    have hd : d = ' ' := by simpa using dropWhile_eq_cons hr
    subst hd
    simp only [describedRequest, hr, List.dropWhile_cons_of_pos (show isSpace ' ' by decide),
      List.drop_one, List.tail_cons, stripTrailingSpaces_dropWhile]

theorem operatorRequest_of_form (eng : Engine) {s t : List Char} {invert : Bool}
    (h : OperatorForm s invert t) :
    operatorRequest eng s =
      if eng.strdup t then .ok (describedRequest invert t) else .error .ealloc :=
  operatorRequest_of_scan eng h.1 (scanOperator_of_form h)

theorem operatorRequest_of_not_form (eng : Engine) {s : List Char}
    (h : ∀ invert t, ¬OperatorForm s invert t) : operatorRequest eng s = .error .einval := by
  unfold operatorRequest
  split
  · rename_i bang c t hscan
    obtain ⟨-, b₁, b₂, hb₁, hb₂, hs⟩ := scanOperator_some hscan
    exact absurd ⟨List.cons_ne_nil c t, b₁, b₂, hb₁, hb₂, by simpa using hs⟩ (h bang (c :: t))
  · rfl

/-- `parse_operator` accepts exactly the operator grammar, makes the described request, and sets the
operator when the engine accepts it. -/
theorem parseOperator_grammar (eng : Engine) (rule : Rule) (s : List Char) :
    (∀ req, operatorRequest eng s = .ok req ↔
      ∃ invert t, OperatorForm s invert t ∧ eng.strdup t = true ∧
        req = describedRequest invert t) ∧
    ((∀ invert t, ¬OperatorForm s invert t) → parseOperator eng rule s = (.einval, rule)) ∧
    (∀ invert t, OperatorForm s invert t →
      (eng.strdup t = false → parseOperator eng rule s = (.ealloc, rule)) ∧
      (eng.strdup t = true →
        (eng.operatorInstCreate (describedRequest invert t) ≠ .ok →
          parseOperator eng rule s = (eng.operatorInstCreate (describedRequest invert t), rule)) ∧
        (eng.operatorInstCreate (describedRequest invert t) = .ok → eng.setOperator ≠ .ok →
          parseOperator eng rule s = (eng.setOperator, rule)) ∧
        (eng.operatorInstCreate (describedRequest invert t) = .ok → eng.setOperator = .ok →
          parseOperator eng rule s =
            (.ok, { rule with operator := some (describedRequest invert t) })))) := by
  refine ⟨fun req => ⟨fun h => ?_, ?_⟩, fun hno => ?_, fun invert t h => ?_⟩
  · by_cases hf : ∃ invert t, OperatorForm s invert t
    · obtain ⟨invert, t, hf⟩ := hf
      rw [operatorRequest_of_form eng hf] at h
      split_ifs at h with hd
      cases h
      exact ⟨invert, t, hf, hd, rfl⟩
    · rw [operatorRequest_of_not_form eng fun invert t h => hf ⟨invert, t, h⟩] at h
      cases h
  · rintro ⟨invert, t, h, hd, rfl⟩
    rw [operatorRequest_of_form eng h, if_pos hd]
  · simp only [parseOperator, operatorRequest_of_not_form eng hno]
  · simp only [parseOperator, operatorRequest_of_form eng h]
    refine ⟨fun hd => by simp [hd], fun hd => ?_⟩
    simp only [hd, if_true, attachOperator]
    exact ⟨fun hc => if_pos hc, fun hc hs => by rw [if_neg (not_not.mpr hc), if_pos hs],
      fun hc hs => by rw [if_neg (not_not.mpr hc), if_neg (not_not.mpr hs)]⟩

example : parseOperator Engine.accepting Rule.empty " ! @rx  \t ".toList =
    (.ok, { Rule.empty with operator := some ⟨"rx".toList, none, true⟩ }) := by
  decide

end IronBee.Rules
