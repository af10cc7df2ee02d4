import Zooffice.Common.Joined
import Zooffice.Common.Run
import Zooffice.User.Deletion
import Zooffice.User.Model.ListPage
/-!
# What is deleted from the list

The box of the administrator is never checked, whatever the user clicks.
The request that the page sends names the checked accounts, and the server
takes its parameter apart into the same names; so exactly the checked
accounts are deleted, or none if one of them is gone already. As long as
no other page of the list is turned to, the box for all rows is checked
exactly when all boxes that can be are.
-/


namespace Zooffice

/-- The letters of a parameter that stand for themselves. -/
def isUnreserved (c : Char) : Bool :=
  c.isAlphanum || c == '-' || c == '_' || c == '.' || c == '~'

/-- What becomes of a parameter on its way from the page to the server:
unreserved letters and commas come as they are. -/
def KeepsPlain (transmit : Text → Text) : Prop :=
  ∀ text, (∀ c ∈ text, isUnreserved c = true ∨ c = ',') → transmit text = text

/-- A user id of unreserved letters. -/
def PlainUserId (userId : String) : Prop :=
  userId.toList ≠ [] ∧ ∀ c ∈ userId.toList, isUnreserved c = true

instance (userId : String) : Decidable (PlainUserId userId) :=
  @instDecidableAnd _ _ inferInstance (List.decidableBAll _ _)

namespace UserListPage

variable {page page' : UserListPage} {action : ListAction}

/-- No disabled box is checked. -/
def Sound (page : UserListPage) : Prop :=
  ∀ row ∈ page.rows, row.disabled = true → row.checked = false

/-- A change of the rows that keeps each account in its place, and checks
no disabled box. -/
def Changes (rows rows' : List CheckRow) : Prop :=
  rows'.map CheckRow.userId = rows.map CheckRow.userId ∧
    ∀ row' ∈ rows', row'.disabled = true → row'.checked = true → ∃ row ∈ rows,
      row.disabled = true ∧ row.checked = true

/-- Each row is changed for itself. -/
theorem changes_map {f : CheckRow → CheckRow} {rows : List CheckRow}
    (hid : ∀ row, (f row).userId = row.userId)
    (hcheck : ∀ row, row.disabled = true → (f row).checked = true → row.checked = true) :
    Changes rows (rows.map f) := by
  refine ⟨?_, fun row' hrow' hdisabled hchecked => ?_⟩
  · rw [List.map_map]
    exact List.map_congr_left fun row _ => hid row
  · obtain ⟨row, hrow, rfl⟩ := List.mem_map.1 hrow'
    have hdisabled' : row.disabled = true := by
      rwa [CheckRow.disabled, hid] at hdisabled
    exact ⟨row, hrow, hdisabled', hcheck row hdisabled' hchecked⟩

/-- One row is changed that is not disabled. -/
theorem changes_set {rows : List CheckRow} {n : Nat} {row row' : CheckRow}
    (hrow : rows[n]? = some row) (hid : row'.userId = row.userId)
    (henabled : row.disabled ≠ true) : Changes rows (rows.set n row') := by
  refine ⟨?_, fun r hr hdisabled hchecked => ?_⟩
  · rw [List.map_set, hid]
    refine List.ext_getElem? fun m => ?_
    rw [List.getElem?_set]
    split
    · next hmn =>
        subst hmn
        obtain ⟨hlt, heq⟩ := List.getElem?_eq_some_iff.1 hrow
        simp [hlt, heq]
    · rfl
  · rcases List.mem_or_eq_of_mem_set hr with hr | rfl
    · exact ⟨r, hr, hdisabled, hchecked⟩
    · rw [CheckRow.disabled, hid] at hdisabled
      exact absurd hdisabled henabled

/-- Rows come into the document, or leave it. -/
theorem changes_turn (page : UserListPage) (inDocument : List Nat) :
    Changes page.rows (page.turn inDocument).rows := by
  refine ⟨?_, fun row' hrow' hdisabled hchecked => ?_⟩
  · refine List.ext_getElem? fun n => ?_
    rw [turn, List.getElem?_map, List.getElem?_mapIdx, List.getElem?_map, Option.map_map]
    rfl
  · obtain ⟨n, hn, rfl⟩ := List.mem_mapIdx.1 hrow'
    exact ⟨_, List.getElem_mem hn, hdisabled, hchecked⟩

/-- **No step checks a disabled box**, or changes whose rows these are. -/
theorem changes_of_step (h : page.step action = some page') : Changes page.rows page'.rows := by
  cases action with
  | clickRow n =>
      rw [step, clickRow] at h
      split at h
      · cases h
      · next row hrow =>
          split at h
          · cases h
          · next hclick =>
              obtain rfl := Option.some.inj h
              exact changes_set hrow rfl fun hdisabled => hclick (.inr hdisabled)
  | clickHeader =>
      obtain rfl := Option.some.inj h
      rw [clickHeader]
      split
      · refine changes_map (fun row => ?_) fun row _ hchecked => ?_
        · split <;> rfl
        · split at hchecked
          · cases hchecked
          · exact hchecked
      · refine changes_map (fun row => ?_) fun row hdisabled hchecked => ?_
        · split <;> rfl
        · rw [hdisabled] at hchecked
          simpa using hchecked
  | turn inDocument =>
      obtain rfl := Option.some.inj h
      exact changes_turn page inDocument

theorem sound_of_step (hsound : Sound page) (h : page.step action = some page') : Sound page' := by
  intro row hrow hdisabled
  refine Bool.eq_false_iff.2 fun hchecked => ?_
  obtain ⟨row', hrow', hdisabled', hchecked'⟩ := (changes_of_step h).2 row hrow hdisabled hchecked
  exact absurd (hsound row' hrow' hdisabled') (by simp [hchecked'])

/-- **No box of the administrator is ever checked**, and the rows stay
those of the accounts of the list. -/
theorem sound_of_perform {rows : List (String × Bool)} {actions : List ListAction}
    (h : perform step (ready rows) actions = some page) :
    page.rows.map CheckRow.userId = rows.map Prod.fst ∧ Sound page := by
  refine perform_invariant_of_step
    (I := fun page => page.rows.map CheckRow.userId = rows.map Prod.fst ∧ Sound page) ?_ ?_ h
  · rintro page action page' ⟨hids, hsound⟩ hstep
    exact ⟨(changes_of_step hstep).1.trans hids, sound_of_step hsound hstep⟩
  · refine ⟨?_, fun row hrow _ => ?_⟩
    · rw [ready, List.map_map]
      rfl
    · obtain ⟨r, -, rfl⟩ := List.mem_map.1 hrow
      rfl

/-! ## The request -/

theorem admin_not_mem (hsound : Sound page) : "admin" ∉ page.checkedUserIds := by
  intro hmem
  obtain ⟨row, hrow, hadmin⟩ := List.mem_map.1 hmem
  obtain ⟨hrow, hchecked⟩ := List.mem_filter.1 hrow
  rw [Bool.and_eq_true, hsound row hrow (decide_eq_true hadmin)] at hchecked
  exact Bool.false_ne_true hchecked.2

theorem checkedUserIds_sublist (page : UserListPage) :
    (page.checkedUserIds).Sublist (page.rows.map CheckRow.userId) :=
  List.filter_sublist.map CheckRow.userId

/-- **The server takes the parameter apart into the names of the checked
accounts.** -/
theorem ids_of_deleteCheckedUsers {transmit : Text → Text} (htransmit : KeepsPlain transmit)
    (hplain : ∀ k ∈ page.checkedUserIds, PlainUserId k) {userIds : Text}
    (h : page.deleteCheckedUsers = some userIds) :
    UserController.ids (String.ofList (transmit userIds)) = page.checkedUserIds := by
  rw [deleteCheckedUsers] at h
  split at h
  · cases h
  · next hlength =>
      obtain rfl := Option.some.inj h
      have hpieces : ∀ piece ∈ page.checkedUserIds.map String.toList,
          piece ≠ [] ∧ ∀ c ∈ piece, isUnreserved c = true := by
        intro piece hpiece
        obtain ⟨k, hk, rfl⟩ := List.mem_map.1 hpiece
        exact hplain k hk
      have hcomma : ∀ piece ∈ page.checkedUserIds.map String.toList, ',' ∉ piece :=
        fun piece hpiece hmem => absurd ((hpieces piece hpiece).2 _ hmem) (by decide)
      have hne : page.checkedUserIds.map String.toList ≠ [] := by
        intro hnil
        exact hlength (by rw [List.map_eq_nil_iff.1 hnil]; rfl)
      have htext : transmit ([','].intercalate (page.checkedUserIds.map String.toList)) =
          [','].intercalate (page.checkedUserIds.map String.toList) := by
        refine htransmit _ fun c hc => ?_
        rcases mem_of_mem_intercalate hc with hcomma | ⟨piece, hpiece, hc⟩
        · exact .inr (List.mem_singleton.1 hcomma)
        · exact .inl ((hpieces piece hpiece).2 c hc)
      rw [UserController.ids, String.toList_ofList, htext, split_intercalate hne hcomma
        (hpieces _ (List.getLast_mem hne)).1, List.map_map]
      exact (List.map_congr_left fun k _ => String.ofList_toList).trans (List.map_id _)

/-- A request that deletes accounts that are stored, each named once. -/
theorem run_delete_of_stored {principal : SecuredUser} {userIds : String} {s : Store}
    (hadmitted : UserController.preAuthorizeDelete principal = .ok ())
    (hnodup : (UserController.ids userIds).Nodup)
    (hstored : ∀ k ∈ UserController.ids userIds, ∃ a ∈ s.users, a.userId = k) :
    ∃ s', (UserController.delete principal userIds).run s = (.ok "redirect:/user/", s') ∧
      s.users.Deletes (UserController.ids userIds) s'.users := by
  obtain ⟨s', hrun⟩ := deleteUsers_returns_iff.2 ⟨hnodup, hstored⟩
  refine ⟨s', ?_, (run_deleteUsers_eq_ok hrun).1⟩
  refine Eff.run_ofExcept_bind_eq_ok.2 ⟨(), hadmitted, Eff.run_bind_eq_ok.2 ⟨(), s', hrun, rfl⟩⟩

/-- And one that names an account that is not stored. -/
theorem run_delete_of_missing {principal : SecuredUser} {userIds : String} {s : Store}
    (hadmitted : UserController.preAuthorizeDelete principal = .ok ())
    (hmissing : ¬ ∀ k ∈ UserController.ids userIds, ∃ a ∈ s.users, a.userId = k) :
    ∃ e, (UserController.delete principal userIds).run s = (.error e, s) := by
  rcases hrun : (UserService.deleteUsers (UserController.ids userIds)).run s with ⟨e | ⟨⟩, s'⟩
  · obtain rfl := state_of_run_deleteUsers_error hrun
    refine ⟨e, Eff.run_ofExcept_bind_eq_error.2 (.inr ⟨(), hadmitted, ?_⟩)⟩
    exact Eff.run_bind_eq_error.2 (.inl hrun)
  · exact absurd (deleteUsers_returns_iff.1 ⟨s', hrun⟩).2 hmissing

/-- **Exactly the checked accounts are deleted.** Whatever the user has
clicked on the page, the request that it sends deletes the accounts whose
boxes are checked and no others, if all of these are still stored, and
nothing otherwise; the account of the administrator stays. -/
theorem delete_of_perform (transmit : Text → Text) (rows : List (String × Bool))
    (actions : List ListAction) (page : UserListPage) (userIds : Text) (principal : SecuredUser)
    (s : Store) (htransmit : KeepsPlain transmit) (hplain : ∀ row ∈ rows, PlainUserId row.1)
    (hnodup : (rows.map Prod.fst).Nodup) (hrun : perform step (ready rows) actions = some page)
    (hsent : page.deleteCheckedUsers = some userIds)
    (hadmitted : UserController.preAuthorizeDelete principal = .ok ()) :
    let done := (UserController.delete principal (String.ofList (transmit userIds))).run s
    ((∀ k ∈ page.checkedUserIds, ∃ a ∈ s.users, a.userId = k) →
      done.1 = .ok "redirect:/user/" ∧
        ∀ a, a ∈ done.2.users ↔ a ∈ s.users ∧ a.userId ∉ page.checkedUserIds) ∧
    ((¬ ∀ k ∈ page.checkedUserIds, ∃ a ∈ s.users, a.userId = k) →
      (∃ e, done.1 = .error e) ∧ done.2.users = s.users) ∧
    ∀ a ∈ s.users, a.userId = "admin" → a ∈ done.2.users := by
  intro done
  obtain ⟨hids, hsound⟩ := sound_of_perform hrun
  have hsublist : page.checkedUserIds.Sublist (rows.map Prod.fst) :=
    hids ▸ checkedUserIds_sublist page
  have hnames : UserController.ids (String.ofList (transmit userIds)) = page.checkedUserIds := by
    refine ids_of_deleteCheckedUsers htransmit (fun k hk => ?_) hsent
    obtain ⟨row, hrow, rfl⟩ := List.mem_map.1 (hsublist.subset hk)
    exact hplain row hrow
  by_cases hstored : ∀ k ∈ page.checkedUserIds, ∃ a ∈ s.users, a.userId = k
  · obtain ⟨s', hdone, hdeletes⟩ := run_delete_of_stored hadmitted
      (hnames.symm ▸ hnodup.sublist hsublist) (hnames.symm ▸ hstored)
    have hmem := hdeletes.mem_iff
    rw [hnames] at hmem
    have hdone' : done = (.ok "redirect:/user/", s') := hdone
    rw [hdone']
    refine ⟨fun _ => ⟨rfl, hmem⟩, fun h => absurd hstored h, fun a ha hadmin => ?_⟩
    exact (hmem a).2 ⟨ha, hadmin ▸ admin_not_mem hsound⟩
  · obtain ⟨e, hdone⟩ := run_delete_of_missing hadmitted (hnames.symm ▸ hstored)
    have hdone' : done = (.error e, s) := hdone
    rw [hdone']
    exact ⟨fun h => absurd h hstored, fun _ => ⟨⟨e, rfl⟩, rfl⟩, fun a ha _ => ha⟩

/-- All boxes are checked, and then one is unchecked again. -/
def afterClicks : UserListPage :=
  (perform step (ready [("admin", true), ("user", true), ("superuser", true)])
    [.clickHeader, .clickRow 2]).getD (ready [])

theorem delete_of_perform_afterClicks :
    let done := (UserController.delete ⟨{ id := some 1, role := some Role.admin }, none⟩
      "user").run DBInit.plaintextStarted
    done.1 = .ok "redirect:/user/" ∧
      ∀ a, a ∈ done.2.users ↔ a ∈ DBInit.plaintextStarted.users ∧ a.userId ∉ ["user"] :=
  (delete_of_perform id [("admin", true), ("user", true), ("superuser", true)]
    [.clickHeader, .clickRow 2] afterClicks "user".toList
    ⟨{ id := some 1, role := some Role.admin }, none⟩ DBInit.plaintextStarted (fun _ _ => rfl)
    (by simp only [List.forall_mem_cons]; exact ⟨by decide, by decide, by decide, by simp⟩)
    (by decide) rfl rfl rfl).1 (by decide)

/-! ## The box for all rows -/

/-- The rows that are counted are the same when one count takes only rows
that the other takes. -/
theorem countP_eq_iff {α : Type*} {p q : α → Bool} {l : List α}
    (h : ∀ a ∈ l, q a = true → p a = true) :
    l.countP p = l.countP q ↔ ∀ a ∈ l, p a = true → q a = true := by
  induction l with
  | nil => simp
  | cons a l ih =>
      rw [List.forall_mem_cons] at h ⊢
      have hle : l.countP q ≤ l.countP p := List.countP_mono_left h.2
      rw [← ih h.2, List.countP_cons, List.countP_cons]
      cases hq : q a with
      | true =>
          rw [h.1 hq]
          simp
      | false =>
          cases hp : p a with
          | true =>
              simp
              omega
          | false => simp

/-- The whole list is in the document, and all its boxes answer. -/
structure Whole (page : UserListPage) : Prop where
  rows : ∀ row ∈ page.rows, row.inDocument = true ∧ row.handled = true
  sound : Sound page
  enabled : ∃ row ∈ page.rows, row.disabled = false
  header : page.header = true ↔ ∀ row ∈ page.rows, row.disabled = false → row.checked = true

theorem whole_ready {rows : List (String × Bool)} (hall : ∀ row ∈ rows, row.2 = true)
    (hsome : ∃ row ∈ rows, row.1 ≠ "admin") : Whole (ready rows) := by
  obtain ⟨r, hr, hadmin⟩ := hsome
  have hmem : (⟨r.1, r.2, r.2, false⟩ : CheckRow) ∈ (ready rows).rows :=
    List.mem_map_of_mem hr
  have henabled : (⟨r.1, r.2, r.2, false⟩ : CheckRow).disabled = false := decide_eq_false hadmin
  refine ⟨fun row hrow => ?_, fun row hrow _ => ?_, ⟨_, hmem, henabled⟩, ?_⟩
  · obtain ⟨r', hr', rfl⟩ := List.mem_map.1 hrow
    exact ⟨hall r' hr', hall r' hr'⟩
  · obtain ⟨r', -, rfl⟩ := List.mem_map.1 hrow
    rfl
  · refine iff_of_false Bool.false_ne_true fun h => ?_
    exact Bool.false_ne_true (h _ hmem henabled)

/-- The two counts agree exactly when all enabled boxes are checked. -/
theorem counts_eq_iff {rows : List CheckRow} (hrows : ∀ row ∈ rows, row.inDocument = true)
    (hsound : ∀ row ∈ rows, row.disabled = true → row.checked = false) :
    (enabledCount rows == checkedCount rows) = true ↔
      ∀ row ∈ rows, row.disabled = false → row.checked = true := by
  rw [beq_iff_eq, enabledCount, checkedCount, countP_eq_iff fun row hrow hchecked => ?_]
  · refine forall₂_congr fun row hrow => ?_
    rw [hrows row hrow, Bool.true_and, Bool.true_and, Bool.not_eq_true']
  · rw [Bool.and_eq_true] at hchecked ⊢
    refine ⟨hchecked.1, ?_⟩
    cases hdisabled : row.disabled with
    | false => rfl
    | true =>
        rw [hsound row hrow hdisabled] at hchecked
        exact absurd hchecked.2 Bool.false_ne_true

/-- Only checks are changed, row by row. -/
theorem whole_map {f : CheckRow → CheckRow} {header : Bool} (hwhole : Whole page)
    (hf : ∀ row, (f row).userId = row.userId ∧ (f row).inDocument = row.inDocument ∧
      (f row).handled = row.handled)
    (hsound : Sound ⟨header, page.rows.map f⟩)
    (hheader : header = true ↔
      ∀ row ∈ page.rows, row.disabled = false → (f row).checked = true) :
    Whole ⟨header, page.rows.map f⟩ := by
  have hdisabled : ∀ row, (f row).disabled = row.disabled := fun row => by
    rw [CheckRow.disabled, CheckRow.disabled, (hf row).1]
  obtain ⟨enabled, hmem, henabled⟩ := hwhole.enabled
  refine ⟨fun row' hrow' => ?_, hsound, ⟨f enabled, List.mem_map_of_mem hmem, ?_⟩,
    hheader.trans ?_⟩
  · obtain ⟨row, hrow, rfl⟩ := List.mem_map.1 hrow'
    rw [(hf row).2.1, (hf row).2.2]
    exact hwhole.rows row hrow
  · rw [hdisabled, henabled]
  · simp only [List.mem_map, forall_exists_index, and_imp, forall_apply_eq_imp_iff₂, hdisabled]

/-- **A click keeps the box for all rows in step with the others.** -/
theorem whole_of_step (hwhole : Whole page) (hturn : ∀ inDocument, action ≠ .turn inDocument)
    (h : page.step action = some page') : Whole page' := by
  have hsound := sound_of_step hwhole.sound h
  obtain ⟨enabled, hmem, henabled⟩ := hwhole.enabled
  cases action with
  | clickRow n =>
      rw [step, clickRow] at h
      split at h
      · cases h
      · next row hrow =>
          split at h
          · cases h
          · next hclick =>
              obtain rfl := Option.some.inj h
              obtain ⟨hlt, hget⟩ := List.getElem?_eq_some_iff.1 hrow
              obtain ⟨hdocument, hhandled⟩ := hwhole.rows row (hget ▸ List.getElem_mem hlt)
              have hrows : ∀ r ∈ page.rows.set n { row with checked := !row.checked },
                  r.inDocument = true ∧ r.handled = true := by
                intro r hr
                rcases List.mem_or_eq_of_mem_set hr with hr | rfl
                · exact hwhole.rows r hr
                · exact ⟨hdocument, hhandled⟩
              refine ⟨hrows, hsound, ⟨_, List.mem_set hlt _, ?_⟩, ?_⟩
              · exact Bool.eq_false_iff.2 fun hdisabled => hclick (.inr hdisabled)
              · rw [if_pos hhandled]
                exact counts_eq_iff (fun r hr => (hrows r hr).1) hsound
  | clickHeader =>
      obtain rfl := Option.some.inj h
      cases hheader : page.header with
      | true =>
          rw [clickHeader, if_pos hheader] at hsound ⊢
          refine whole_map hwhole (fun row => ?_) hsound
            (iff_of_false Bool.false_ne_true fun h => ?_)
          · split
            all_goals exact ⟨rfl, rfl, rfl⟩
          · have hchecked := h enabled hmem henabled
            rw [if_pos (hwhole.rows enabled hmem).1] at hchecked
            cases hchecked
      | false =>
          rw [clickHeader, hheader, if_neg Bool.false_ne_true] at hsound ⊢
          refine whole_map hwhole (fun row => ?_) hsound
            (iff_of_true rfl fun row hrow hdisabled => ?_)
          · split
            all_goals exact ⟨rfl, rfl, rfl⟩
          · rw [(hwhole.rows row hrow).1, hdisabled]
            rfl
  | turn inDocument => exact absurd rfl (hturn inDocument)

/-- **The box for all rows is checked exactly when all enabled boxes
are**, after any clicks on a list whose rows are all in the document. -/
theorem header_iff_of_perform (rows : List (String × Bool)) (actions : List ListAction)
    (page : UserListPage) (hall : ∀ row ∈ rows, row.2 = true)
    (hsome : ∃ row ∈ rows, row.1 ≠ "admin")
    (hturn : ∀ action ∈ actions, ∀ inDocument, action ≠ .turn inDocument)
    (hrun : perform step (ready rows) actions = some page) :
    page.header = true ↔ ∀ row ∈ page.rows, row.disabled = false → row.checked = true :=
  (perform_invariant (I := Whole) (G := fun _ action => ∀ inDocument, action ≠ .turn inDocument)
    (fun _ _ _ hwhole hturn hstep => whole_of_step hwhole hturn hstep) (whole_ready hall hsome)
    (along_of_forall (fun action h _ => hturn action h) _) hrun).header

theorem header_iff_of_perform_afterClicks :
    afterClicks.header = true ↔
      ∀ row ∈ afterClicks.rows, row.disabled = false → row.checked = true :=
  header_iff_of_perform [("admin", true), ("user", true), ("superuser", true)]
    [.clickHeader, .clickRow 2] afterClicks (by decide) (by decide)
    (fun action h inDocument heq => by subst heq; simp at h) rfl

end UserListPage

end Zooffice
