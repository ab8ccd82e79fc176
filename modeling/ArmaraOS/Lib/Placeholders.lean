import Mathlib.Data.List.Infix
import ArmaraOS.Lib.Text

/-!
Texts with holes, and filling them by replacing their placeholders.

A text with holes is written with a placeholder for each hole. Replacing the placeholder of a name
in what is written fills the holes of that name, and nothing else, where the placeholder occurs
nowhere but at these holes. Filling holes one name after the other is filling them all at once.
-/

namespace ArmaraOS.Lib

open ArmaraOS.Text

/-- A character or a hole with a name. -/
inductive Symbol (N : Type) where
  | char (c : Char)
  | hole (name : N)
deriving DecidableEq

namespace Symbol

variable {N : Type}

section Written

variable (pat : N → List Char)

/-- How a symbol is written. -/
def written : Symbol N → List Char
  | .char c => [c]
  | .hole name => pat name

/-- How a text with holes is written. -/
def render (text : List (Symbol N)) : List Char := text.flatMap (written pat)

@[simp] theorem render_nil : render pat ([] : List (Symbol N)) = [] := rfl

@[simp] theorem render_cons (x : Symbol N) (text : List (Symbol N)) :
    render pat (x :: text) = written pat x ++ render pat text := rfl

/-- The text with holes that is read where the placeholder of the first name that fits is taken
for a hole; `skip` counts the characters of a placeholder still to pass. -/
def readFrom (names : List N) : Nat → List Char → List (Symbol N)
  | _, [] => []
  | skip + 1, _ :: cs => readFrom names skip cs
  | 0, c :: cs =>
      match names.find? fun name => (pat name).isPrefixOf (c :: cs) with
      | some name => .hole name :: readFrom names ((pat name).length - 1) cs
      | none => .char c :: readFrom names 0 cs

variable {pat}

/-- What is read is written as it was. -/
theorem render_readFrom (hpat : ∀ name, pat name ≠ []) (names : List N) (skip : Nat)
    (cs : List Char) : render pat (readFrom pat names skip cs) = cs.drop skip := by
  induction cs generalizing skip with
  | nil => simp [readFrom]
  | cons c cs ih =>
      cases skip with
      | succ skip => rw [readFrom, ih, List.drop_succ_cons]
      | zero =>
          rw [readFrom]
          cases hname : names.find? fun name => (pat name).isPrefixOf (c :: cs) with
          | none => rw [render_cons, ih]; rfl
          | some name =>
              have hpre : (pat name).isPrefixOf (c :: cs) = true := by
                simpa using List.find?_some hname
              obtain ⟨rest, hrest⟩ := List.isPrefixOf_iff_prefix.mp hpre
              have hpos := List.length_pos_iff.mpr (hpat name)
              dsimp only
              rw [render_cons, ih, written, ← List.drop_succ_cons, Nat.sub_add_cancel hpos,
                ← hrest, List.drop_left]
              rfl

end Written

/-! ### Filling holes -/

section Fill

/-- The holes of a name filled with a text. -/
def fill [DecidableEq N] (name : N) (value : List Char) (text : List (Symbol N)) :
    List (Symbol N) :=
  text.flatMap fun x => if x = .hole name then value.map .char else [x]

/-- All holes filled whose name has a value. -/
def fillAll (values : N → Option (List Char)) (text : List (Symbol N)) : List (Symbol N) :=
  text.flatMap fun x =>
    match x with
    | .char c => [.char c]
    | .hole name => ((values name).map (·.map .char)).getD [.hole name]

@[simp] theorem fill_cons [DecidableEq N] (name : N) (value : List Char) (x : Symbol N)
    (text : List (Symbol N)) :
    fill name value (x :: text) =
      (if x = .hole name then value.map .char else [x]) ++ fill name value text := rfl

theorem fillAll_append (values : N → Option (List Char)) (text more : List (Symbol N)) :
    fillAll values (text ++ more) = fillAll values text ++ fillAll values more :=
  List.flatMap_append

theorem fillAll_chars (values : N → Option (List Char)) (cs : List Char) :
    fillAll values (cs.map .char) = cs.map .char := by
  induction cs with
  | nil => rfl
  | cons c cs ih => exact congrArg (Symbol.char c :: ·) ih

/-- One name after the other is all at once: the first value of a name counts. -/
theorem foldl_fill [DecidableEq N] (steps : List (N × List Char)) (text : List (Symbol N)) :
    steps.foldl (fun text step => fill step.1 step.2 text) text =
      fillAll (fun name => steps.lookup name) text := by
  induction steps generalizing text with
  | nil =>
      induction text with
      | nil => rfl
      | cons x text ih =>
          rw [List.foldl_nil] at ih ⊢
          cases x <;> exact congrArg (_ :: ·) ih
  | cons step steps ih =>
      obtain ⟨name, value⟩ := step
      rw [List.foldl_cons, ih]
      induction text with
      | nil => rfl
      | cons x text ih =>
          rw [fill_cons, fillAll_append, ih]
          cases x with
          | char c => rfl
          | hole other =>
              by_cases hother : other = name
              · subst hother
                rw [if_pos rfl, fillAll_chars]
                simp [fillAll]
              · rw [if_neg (by simpa using hother)]
                simp [fillAll, List.lookup_cons, beq_eq_false_iff_ne.mpr hother]

end Fill

/-! ### Replacing placeholders -/

section Replace

variable {pat : N → List Char}

variable (pat) in
/-- The placeholder of a name occurs at its holes, and starts nowhere else. -/
def OnlyAtHoles (name : N) : List (Symbol N) → Prop
  | [] => True
  | x :: text =>
      (x = .hole name ∨
        ∀ i < (written pat x).length, ¬ pat name <+: (render pat (x :: text)).drop i) ∧
      OnlyAtHoles name text

instance decidableOnlyAtHoles [DecidableEq N] (name : N) :
    (text : List (Symbol N)) → Decidable (OnlyAtHoles pat name text)
  | [] => inferInstanceAs (Decidable True)
  | _ :: text =>
      have : Decidable (OnlyAtHoles pat name text) := decidableOnlyAtHoles name text
      inferInstanceAs (Decidable (_ ∧ _))

/-- A pattern that is not empty is replaced where a text starts with it. -/
theorem replaceFrom_start {p : List Char} (hp : p ≠ []) (rep rest : List Char) :
    replaceFrom p rep 0 (p ++ rest) = rep ++ replaceFrom p rep 0 rest := by
  have hskip : ∀ (front : List Char), replaceFrom p rep front.length (front ++ rest) =
      replaceFrom p rep 0 rest := by
    intro front
    induction front with
    | nil => rfl
    | cons c front ih => exact ih
  cases p with
  | nil => exact absurd rfl hp
  | cons c p =>
      have hpre : (c :: p).isPrefixOf (c :: (p ++ rest)) = true :=
        List.isPrefixOf_iff_prefix.mpr (List.prefix_append (c :: p) rest)
      rw [List.cons_append, replaceFrom, if_pos hpre, List.length_cons, Nat.add_sub_cancel, hskip]

/-- What no occurrence starts in is kept. -/
theorem replaceFrom_plain {p : List Char} (rep : List Char) {plain rest : List Char}
    (h : ∀ i < plain.length, ¬ p <+: (plain ++ rest).drop i) :
    replaceFrom p rep 0 (plain ++ rest) = plain ++ replaceFrom p rep 0 rest := by
  induction plain with
  | nil => rfl
  | cons c plain ih =>
      have hstart : ¬ p.isPrefixOf (c :: (plain ++ rest)) = true := fun hpre =>
        h 0 (Nat.zero_lt_succ _) (List.isPrefixOf_iff_prefix.mp hpre)
      have hrest : ∀ i < plain.length, ¬ p <+: (plain ++ rest).drop i := fun i hi =>
        h (i + 1) (Nat.succ_lt_succ hi)
      rw [List.cons_append, replaceFrom, if_neg hstart, ih hrest, List.cons_append]

theorem render_append (text more : List (Symbol N)) :
    render pat (text ++ more) = render pat text ++ render pat more := List.flatMap_append

@[simp] theorem render_chars (cs : List Char) : render pat (cs.map .char) = cs := by
  induction cs with
  | nil => rfl
  | cons c cs ih => exact congrArg (c :: ·) ih

variable [DecidableEq N]

/-- **One name.** Replacing a placeholder that occurs only at its holes fills them. -/
theorem replaceFrom_render (hpat : ∀ name, pat name ≠ []) {name : N} {value : List Char}
    {text : List (Symbol N)} (h : OnlyAtHoles pat name text) :
    replaceFrom (pat name) value 0 (render pat text) = render pat (fill name value text) := by
  induction text with
  | nil => rfl
  | cons x text ih =>
      obtain ⟨hx, htext⟩ := h
      rw [render_cons, fill_cons, render_append, ← ih htext]
      by_cases hhole : x = .hole name
      · subst hhole
        rw [if_pos rfl, render_chars, written, replaceFrom_start (hpat name)]
      · have hplain : ∀ i < (written pat x).length,
            ¬ pat name <+: (written pat x ++ render pat text).drop i := hx.resolve_left hhole
        rw [if_neg hhole, replaceFrom_plain value hplain, render_cons, render_nil, List.append_nil]

variable (pat) in
/-- Each placeholder that is replaced occurs only at its holes when its turn comes. -/
def FillsOnlyHoles : List (Symbol N) → List (N × List Char) → Prop
  | _, [] => True
  | text, (name, value) :: steps =>
      OnlyAtHoles pat name text ∧ FillsOnlyHoles (fill name value text) steps

/-- **All names.** Replacing one placeholder after the other fills all holes at once. -/
theorem foldl_replaceFrom (hpat : ∀ name, pat name ≠ []) {steps : List (N × List Char)}
    {text : List (Symbol N)} (h : FillsOnlyHoles pat text steps) :
    steps.foldl (fun cs step => replaceFrom (pat step.1) step.2 0 cs) (render pat text) =
      render pat (fillAll (fun name => steps.lookup name) text) := by
  rw [← foldl_fill]
  induction steps generalizing text with
  | nil => rfl
  | cons step steps ih =>
      obtain ⟨honly, hsteps⟩ := h
      rw [List.foldl_cons, List.foldl_cons, replaceFrom_render hpat honly, ih hsteps]

end Replace

end Symbol

end ArmaraOS.Lib
