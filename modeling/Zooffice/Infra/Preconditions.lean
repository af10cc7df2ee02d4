import Zooffice.Infra.Model.Preconditions
import Zooffice.User.Model.Controller
/-!
# Arguments in a template

The placeholders cut a template into pieces, in one way that does not
depend on the arguments. What `format` builds is these pieces with the
arguments between them, so a placeholder that an argument brings in is not
one of the template.
-/


namespace Zooffice

namespace Preconditions

variable {template piece : List Char} {pieces args : List (List Char)}

/-- The pieces with the arguments between them, and a placeholder where
there is no argument. -/
def weave : List (List Char) → List (List Char) → List Char
  | [], _ => []
  | [piece], _ => piece
  | piece :: pieces, [] => piece ++ placeholder ++ weave pieces []
  | piece :: pieces, arg :: args => piece ++ arg ++ weave pieces args

/-- The texts between the placeholders of a template. -/
structure CutInto (template : List Char) (pieces : List (List Char)) : Prop where
  ne_nil : pieces ≠ []
  literal : ∀ piece ∈ pieces, ¬ placeholder <:+: piece
  joined : template = placeholder.intercalate pieces

theorem weave_nil_args : weave pieces [] = placeholder.intercalate pieces := by
  induction pieces with
  | nil => rfl
  | cons piece pieces ih =>
      cases pieces with
      | nil => rw [weave, List.intercalate_singleton]
      | cons next pieces =>
          rw [weave, ih, List.intercalate_cons_cons]
          exact List.cons_ne_nil _ _

/-- **The first placeholder** is behind the first piece. -/
theorem firstOccurrence_placeholder (h : ¬ placeholder <:+: piece) (rest : List Char) :
    firstOccurrence placeholder.isPrefixOf? (piece ++ (placeholder ++ rest)) =
      some (piece, rest) := by
  refine firstOccurrence_append (isPrefixOf?_append _ _) fun b hb hsuffix => ?_
  refine Option.eq_none_iff_forall_ne_some.2 fun more hmore => h ?_
  have hbegins : placeholder <+: b ++ '%' :: 's' :: rest :=
    ⟨more, (isPrefixOf?_eq_some_iff.1 hmore).symm⟩
  exact (prefix_of_prefix_append_cons (by decide) hb hbegins).isInfix.trans hsuffix.isInfix

/-- **The loop weaves the arguments into the pieces**, and leaves those for
which there is no placeholder. -/
theorem substitute_eq (h : CutInto template pieces) :
    substitute template args = (weave pieces args, args.drop (pieces.length - 1)) := by
  obtain ⟨hne, hliteral, rfl⟩ := h
  induction pieces generalizing args with
  | nil => exact absurd rfl hne
  | cons piece pieces ih =>
      have hpiece := hliteral piece List.mem_cons_self
      cases args with
      | nil => rw [substitute, weave_nil_args, List.drop_nil]
      | cons arg args =>
          cases pieces with
          | nil =>
              -- the last piece: there is no placeholder left
              rw [List.intercalate_singleton, substitute, firstOccurrence_eq_none_iff.2 hpiece]
              rfl
          | cons next pieces =>
              rw [List.intercalate_cons_cons, List.append_assoc, substitute,
                firstOccurrence_placeholder hpiece]
              dsimp only
              rw [ih (List.cons_ne_nil _ _) fun p hp => hliteral p (List.mem_cons_of_mem _ hp)]
              rfl

/-- **Every template is cut into pieces.** -/
theorem exists_cutInto (template : List Char) : ∃ pieces, CutInto template pieces := by
  -- on the length: what is behind the first placeholder is shorter
  induction hlength : template.length using Nat.strong_induction_on generalizing template with
  | _ n ih =>
      rcases hfirst : firstOccurrence placeholder.isPrefixOf? template with _ | ⟨before, rest⟩
      · refine ⟨[template], List.cons_ne_nil _ _, fun piece hpiece => ?_, ?_⟩
        · rw [List.mem_singleton.1 hpiece]
          exact firstOccurrence_eq_none_iff.1 hfirst
        · rw [List.intercalate_singleton]
      · have htext := eq_of_firstOccurrence hfirst
        have hshorter : rest.length < n := by
          rw [← hlength, htext, List.length_append, List.length_append, placeholder]
          simp only [List.length_cons, List.length_nil]
          omega
        obtain ⟨pieces, hne, hliteral, hrest⟩ := ih _ hshorter rest rfl
        refine ⟨before :: pieces, List.cons_ne_nil _ _, fun piece hpiece => ?_, ?_⟩
        · rcases List.mem_cons.1 hpiece with rfl | hpiece
          · exact not_infix_of_firstOccurrence (List.cons_ne_nil _ _) hfirst
          · exact hliteral piece hpiece
        · rw [List.intercalate_cons_of_ne_nil hne, ← hrest, List.append_assoc]
          exact htext

/-- What the search finds in a template is its first piece. -/
theorem CutInto.firstOccurrence_eq (h : CutInto template (piece :: pieces)) :
    firstOccurrence placeholder.isPrefixOf? template =
      if pieces = [] then none else some (piece, placeholder.intercalate pieces) := by
  have hpiece := h.literal piece List.mem_cons_self
  rw [h.joined]
  split
  · next hlast => rw [hlast, List.intercalate_singleton, firstOccurrence_eq_none_iff.2 hpiece]
  · next hmore =>
      rw [List.intercalate_cons_of_ne_nil hmore, List.append_assoc,
        firstOccurrence_placeholder hpiece]

/-- What is behind the first placeholder is cut into the other pieces. -/
theorem CutInto.tail (h : CutInto template (piece :: pieces)) (hne : pieces ≠ []) :
    CutInto (placeholder.intercalate pieces) pieces :=
  ⟨hne, fun p hp => h.literal p (List.mem_cons_of_mem piece hp), rfl⟩

/-- **A template is cut in one way.** -/
theorem CutInto.unique {pieces' : List (List Char)} (h : CutInto template pieces)
    (h' : CutInto template pieces') : pieces = pieces' := by
  induction pieces generalizing template pieces' with
  | nil => exact absurd rfl h.ne_nil
  | cons piece pieces ih =>
      cases pieces' with
      | nil => exact absurd rfl h'.ne_nil
      | cons piece' pieces' =>
          have hfirst := h.firstOccurrence_eq.symm.trans h'.firstOccurrence_eq
          by_cases hlast : pieces = []
          · by_cases hlast' : pieces' = []
            · subst hlast hlast'
              have hjoined := h.joined.symm.trans h'.joined
              rw [List.intercalate_singleton, List.intercalate_singleton] at hjoined
              rw [hjoined]
            · rw [if_pos hlast, if_neg hlast'] at hfirst
              cases hfirst
          · by_cases hlast' : pieces' = []
            · rw [if_neg hlast, if_pos hlast'] at hfirst
              cases hfirst
            · rw [if_neg hlast, if_neg hlast'] at hfirst
              obtain ⟨rfl, hrest⟩ := Prod.mk.inj (Option.some.inj hfirst)
              rw [ih (h.tail hlast) (hrest ▸ h'.tail hlast')]

/-- **What `format` builds**: the pieces of the template, which do not depend
on the arguments, with the arguments between them; a placeholder for which
there is no argument stays, and the arguments for which there is no
placeholder come behind in square braces. -/
theorem format_eq (template : Option String) :
    ∃! pieces, CutInto (valueOf template) pieces ∧
      ∀ args : List (Option String), format template args =
        weave pieces (args.map valueOf) ++
          extraArgs ((args.map valueOf).drop (pieces.length - 1)) := by
  obtain ⟨pieces, hpieces⟩ := exists_cutInto (valueOf template)
  refine ⟨pieces, ⟨hpieces, fun args => ?_⟩, fun pieces' h' => h'.1.unique hpieces⟩
  rw [format, substitute_eq hpieces]

/-- The message of the check in `saveOrUpdateUserDetail`, whatever the user
is called. -/
theorem checkArgumentFormat_updateUser (b : Bool) (u : User) :
    checkArgumentFormat b (some "Illegal request to update user:%s") [some u.toText] =
      checkArgument b (some ("Illegal request to update user:" ++ u.toText)) := by
  have hpieces : CutInto (valueOf (some "Illegal request to update user:%s"))
      ["Illegal request to update user:".toList, []] := by
    refine ⟨List.cons_ne_nil _ _, fun piece hpiece => ?_, rfl⟩
    rcases List.mem_cons.1 hpiece with rfl | hpiece
    · decide
    · rw [List.mem_singleton.1 hpiece]
      decide
  have hformat : format (some "Illegal request to update user:%s") [some u.toText] =
      ("Illegal request to update user:" ++ u.toText).toList := by
    rw [format, substitute_eq hpieces, String.toList_append]
    simp [weave, extraArgs, valueOf]
  rw [checkArgumentFormat, hformat, String.ofList_toList]

end Preconditions

end Zooffice
