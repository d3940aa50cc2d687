import IronBee.CTypes
import Mathlib.Data.List.DropRight
import Mathlib.Data.List.Basic

/-! # C strings in the C locale

The rule parsers work on NUL-terminated strings with the `<ctype.h>` classifiers and
`<string.h>` scanners. A string is modelled by its characters before the terminating NUL,
and each scanner by what it returns; the classifiers are those of the C locale, in which the
module runs.
-/

namespace IronBee.Rules

/-- `isspace` in the C locale: space, `\t`, `\n`, `\v`, `\f`, `\r`. -/
def isSpace (c : Char) : Bool :=
  c = ' ' || c = '\t' || c = '\n' || c = '\x0b' || c = '\x0c' || c = '\r'

/-- `isblank` in the C locale: space and `\t`. -/
def isBlank (c : Char) : Bool :=
  c = ' ' || c = '\t'

/-- `strcasecmp(a, b) == 0` in the C locale, where `tolower` maps only `A`-`Z`. -/
def strcaseeq (a b : List Char) : Bool :=
  a.map Char.toLower == b.map Char.toLower

/-- One call of `strtok` on what is left of the string: the token and what follows the
delimiter that ends it, or `none` (a `NULL` return) when only delimiters are left. -/
def strtok (delim : List Char) (s : List Char) : Option (List Char × List Char) :=
  let t := s.dropWhile delim.contains
  if t = [] then none
  else some (t.takeWhile (!delim.contains ·), (t.dropWhile (!delim.contains ·)).drop 1)

theorem strtok_length_lt {delim s tok rest : List Char}
    (h : strtok delim s = some (tok, rest)) : rest.length < s.length := by
  unfold strtok at h
  dsimp only at h
  split_ifs at h with ht
  cases h
  have h₁ := (List.dropWhile_suffix delim.contains (l := s)).length_le
  have h₂ := (List.dropWhile_suffix (fun c => !delim.contains c)
    (l := s.dropWhile delim.contains)).length_le
  have h₃ := List.length_pos.mpr ht
  simp only [List.length_drop]
  omega

theorem rdropWhile_cons_of_neg {p : Char → Bool} {c : Char} (cs : List Char) (h : ¬p c) :
    (c :: cs).rdropWhile p = c :: cs.rdropWhile p := by
  simp only [List.rdropWhile, List.reverse_cons, List.dropWhile_append]
  split
  · rename_i he
    rw [List.isEmpty_iff.mp he, List.dropWhile_cons_of_neg (by simpa using h)]
    simp
  · simp

theorem dropWhile_eq_cons {p : Char → Bool} :
    ∀ {l ds : List Char} {d : Char}, l.dropWhile p = d :: ds → p d = false
  | [], _, _, h => by simp at h
  | x :: xs, ds, d, h => by
    by_cases hx : p x
    · rw [List.dropWhile_cons_of_pos hx] at h
      exact dropWhile_eq_cons h
    · rw [List.dropWhile_cons_of_neg hx] at h
      cases h
      simpa using hx

/-- The maximal non-empty runs of characters outside `delim`, in order. -/
def runs (delim : List Char) (s : List Char) : List (List Char) :=
  (s.splitOnP delim.contains).filter fun run => !run.isEmpty

theorem runs_delim_cons {delim : List Char} {d : Char} (hd : delim.contains d)
    (s : List Char) : runs delim (d :: s) = runs delim s := by
  rw [runs, List.splitOnP_cons, if_pos hd]
  rfl

theorem runs_dropWhile (delim s : List Char) :
    runs delim (s.dropWhile delim.contains) = runs delim s := by
  induction s with
  | nil => rfl
  | cons c cs ih =>
    by_cases hc : delim.contains c
    · rw [List.dropWhile_cons_of_pos hc, ih, runs_delim_cons hc]
    · rw [List.dropWhile_cons_of_neg hc]

theorem runs_first_token {delim : List Char} {c : Char} (hc : ¬delim.contains c)
    (cs : List Char) :
    runs delim (c :: cs) = (c :: cs).takeWhile (!delim.contains ·) ::
      runs delim (((c :: cs).dropWhile (!delim.contains ·)).drop 1) := by
  have hsplit := List.takeWhile_append_dropWhile (!delim.contains ·) (c :: cs)
  have htok : ∀ x ∈ (c :: cs).takeWhile (!delim.contains ·), ¬delim.contains x := by
    intro x hx
    simpa using List.mem_takeWhile_imp hx
  have hkeep : (!((c :: cs).takeWhile (!delim.contains ·)).isEmpty) = true := by
    rw [List.takeWhile_cons_of_pos (by simpa using hc)]
    rfl
  unfold runs
  cases hr : (c :: cs).dropWhile (!delim.contains ·) with
  | nil =>
    rw [hr, List.append_nil] at hsplit
    conv_lhs => rw [← hsplit, List.splitOnP_eq_single delim.contains _ htok]
    rw [List.filter_cons_of_pos (p := fun run : List Char => !run.isEmpty) hkeep]
    rfl
  | cons d ds =>
    have hd : delim.contains d := by simpa using dropWhile_eq_cons hr
    rw [hr] at hsplit
    conv_lhs => rw [← hsplit, List.splitOnP_first delim.contains _ htok d hd]
    rw [List.filter_cons_of_pos (p := fun run : List Char => !run.isEmpty) hkeep]
    rfl

theorem runs_of_strtok_none {delim s : List Char} (h : strtok delim s = none) :
    runs delim s = [] := by
  unfold strtok at h
  dsimp only at h
  split_ifs at h with ht
  rw [← runs_dropWhile, ht]
  rfl

theorem runs_of_strtok_some {delim s tok rest : List Char}
    (h : strtok delim s = some (tok, rest)) : runs delim s = tok :: runs delim rest := by
  unfold strtok at h
  dsimp only at h
  split_ifs at h with ht
  cases h
  rw [← runs_dropWhile]
  obtain ⟨c, cs, hcs⟩ := List.exists_cons_of_ne_nil ht
  have hc : ¬delim.contains c := by simpa using dropWhile_eq_cons hcs
  rw [hcs]
  exact runs_first_token hc cs

end IronBee.Rules
