import ArmaraOS.Kernel.WorkflowVotes
import ArmaraOS.Lib.Grouping
import ArmaraOS.Lib.Placeholders

/-!
What `expand_variables` makes of a template.

The input is put in first and then one variable after the other, in the order of the map, so text
that was put in is read for placeholders again. The result is the template with all its placeholders
replaced at once where no such text completes a placeholder that is still to be replaced.
-/

namespace ArmaraOS.Kernel

open ArmaraOS.Lib ArmaraOS.Lib.Symbol ArmaraOS.Text

/-- The characters of a placeholder. -/
def placeholderChars (name : String) : List Char := (placeholder name).toList

theorem placeholderChars_ne_nil (name : String) : placeholderChars name ≠ [] := by
  simp [placeholderChars, placeholder, String.toList_append]

/-- The characters of the values. -/
def valueChars (steps : List (String × String)) : List (String × List Char) :=
  steps.map fun step => (step.1, step.2.toList)

/-- The template, with the placeholders of these names as holes. -/
def templateHoles (names : List String) (template : String) : List (Symbol String) :=
  readFrom placeholderChars names 0 template.toList

/-- The template with the placeholders of all names replaced at once. -/
def expandAtOnce (steps : List (String × String)) (template : String) : String :=
  String.ofList (render placeholderChars
    (fillAll (fun name => (valueChars steps).lookup name)
      (templateHoles (steps.map Prod.fst) template)))

/-- In each order of the map, a placeholder that is replaced occurs where the template has it and
nowhere else: no text that was put in completes one. -/
def NoPlaceholderArises (first vars : List (String × String)) (template : String) : Prop :=
  ∀ vars', vars'.Perm vars →
    FillsOnlyHoles placeholderChars (templateHoles ((first ++ vars).map Prod.fst) template)
      (valueChars (first ++ vars'))

/-! ### One placeholder after the other -/

theorem toList_foldl_replace (steps : List (String × String)) (text : String) :
    (steps.foldl (fun text (key, value) => replace text (placeholder key) value) text).toList =
      (valueChars steps).foldl
        (fun cs step => replaceFrom (placeholderChars step.1) step.2 0 cs) text.toList := by
  induction steps generalizing text with
  | nil => rfl
  | cons step steps ih =>
      have hone : (replace text (placeholder step.1) step.2).toList =
          replaceFrom (placeholderChars step.1) step.2.toList 0 text.toList :=
        String.toList_ofList
      rw [List.foldl_cons, ih, hone]
      rfl

theorem lookup_valueChars_perm {vars vars' : List (String × String)}
    (hkeys : (vars.map Prod.fst).Nodup) (hperm : vars'.Perm vars) (name : String) :
    (valueChars vars').lookup name = (valueChars vars).lookup name := by
  have hchars : ((valueChars vars).map Prod.fst).Nodup := by
    rw [valueChars, List.map_map]
    exact hkeys
  exact lookup_perm hchars (hperm.map _) name

/-- A template is filled at once, in every order of the variables. -/
theorem foldl_replace_eq_expandAtOnce {first vars vars' : List (String × String)}
    {template : String} (hkeys : (vars.map Prod.fst).Nodup) (hperm : vars'.Perm vars)
    (h : NoPlaceholderArises first vars template) :
    (first ++ vars').foldl (fun text (key, value) => replace text (placeholder key) value)
        template = expandAtOnce (first ++ vars) template := by
  have hwritten : render placeholderChars
      (templateHoles ((first ++ vars).map Prod.fst) template) = template.toList :=
    render_readFrom placeholderChars_ne_nil _ 0 template.toList
  have hlookup : (fun name => (valueChars (first ++ vars')).lookup name) =
      fun name => (valueChars (first ++ vars)).lookup name := by
    funext name
    simp only [valueChars, List.map_append, List.lookup_append]
    rw [← valueChars, ← valueChars, ← valueChars, lookup_valueChars_perm hkeys hperm]
  rw [expandAtOnce, ← hlookup, ← foldl_replaceFrom placeholderChars_ne_nil (h vars' hperm),
    hwritten, ← toList_foldl_replace, String.ofList_toList]

section Expand

variable {W : Type}

/-- For every template, input and map of variables: in every order of the map, and so in any two,
`expand_variables` is the template with all its placeholders replaced at once, if no text that is
put in completes a placeholder. -/
theorem expandVariables_eq_expandAtOnce (env : WorkflowEnv W) {template input : String}
    {vars : List (String × String)} (hkeys : (vars.map Prod.fst).Nodup)
    (h : NoPlaceholderArises [("input", input)] vars template)
    {order : {V : Type} → List (String × V) → List (String × V)} (horder : IsMapOrder order) :
    expandVariables (env.inOrder order) template input vars =
      expandAtOnce (("input", input) :: vars) template :=
  foldl_replace_eq_expandAtOnce hkeys (horder String vars) h

end Expand

/-- A value that holds the placeholder of no variable is put in as it is. -/
theorem expandVariables_eq_expandAtOnce_greeting :
    expandVariables (sameAnswer.inOrder List.reverse)
        (placeholder "who" ++ ", " ++ placeholder "input") (placeholder "x") [("who", "Ada")] =
      "Ada, " ++ placeholder "x" := by
  have harises : NoPlaceholderArises [("input", placeholder "x")] [("who", "Ada")]
      (placeholder "who" ++ ", " ++ placeholder "input") := by
    intro vars' hperm
    rw [List.perm_singleton.mp hperm]
    exact ⟨by decide +kernel, by decide +kernel, trivial⟩
  have hkeys : ([("who", "Ada")].map Prod.fst).Nodup := List.nodup_singleton "who"
  have hreverse : IsMapOrder List.reverse := fun _ entries => List.reverse_perm entries
  refine (expandVariables_eq_expandAtOnce sameAnswer hkeys harises hreverse).trans ?_
  decide +kernel

/-- A value that is the placeholder of another variable: the order of the map decides. -/
theorem expandVariables_depends_on_order :
    ¬ ∀ (env : WorkflowEnv Unit) (template input : String) (vars : List (String × String)),
      (vars.map Prod.fst).Nodup →
      ∀ order order' : {V : Type} → List (String × V) → List (String × V),
        IsMapOrder order → IsMapOrder order' →
        expandVariables (env.inOrder order) template input vars =
            expandVariables (env.inOrder order') template input vars ∧
          expandVariables (env.inOrder order) template input vars =
            expandAtOnce (("input", input) :: vars) template := by
  intro h
  have hsame := (h sameAnswer (placeholder "a") "" [("a", placeholder "b"), ("b", "x")] (by decide)
    id List.reverse (fun _ _ => .rfl) fun _ entries => List.reverse_perm entries).1
  exact absurd hsame (by decide)

-- Text that completes placeholders can cancel out: here two of them, in both orders.
example :
    ∀ vars ∈ [[("a", "\x7b\x7ba"), ("b", "\x7d\x7d" ++ placeholder "b")],
        [("b", "\x7d\x7d" ++ placeholder "b"), ("a", "\x7b\x7ba")]],
      expandVariables sameAnswer (placeholder "input") (placeholder "a" ++ placeholder "b") vars =
        placeholder "a" ++ placeholder "b" := by
  decide

end ArmaraOS.Kernel
