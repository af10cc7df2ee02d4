import Zooffice.Common.Run
import Zooffice.Lock.Model.Decoders
import Zooffice.Lock.Model.LockService
/-!
# What counts as unlocked

`acquireLock` judges the selected object by `checkReturnValue` and then
updates the row under a `WHERE` clause of its own, so a node gets the lock
only where both call the row unlocked. They do for the literals the code
writes itself. For null, an empty text, padded literals and, on the other
databases, `0`, the judgement says unlocked and the clause takes no row.
The decoders of the same object part in the same way, at padded texts and
at numbers other than zero and one.
-/


namespace Zooffice

open TrueOrFalseBooleanType

/-! ## The judgement of a text -/

theorem checkReturnValue_string_eq_true {s : String} :
    checkReturnValue (.string s) = .ok true ↔ trim s = "T" := by
  by_cases hT : trim s = "T"
  · simp [checkReturnValue, hT]
  · by_cases hF : trim s = "F" ∨ s = "" ∨ trim s = "0" <;> simp [checkReturnValue, hT, hF]

theorem trim_ne_true {s : String} (h : trim s = "F" ∨ s = "" ∨ trim s = "0") : trim s ≠ "T" := by
  rintro hT
  rcases h with hF | rfl | h0
  · exact absurd (hF.symm.trans hT) (by decide)
  · exact absurd hT (by decide)
  · exact absurd (h0.symm.trans hT) (by decide)

theorem checkReturnValue_string_eq_false {s : String} :
    checkReturnValue (.string s) = .ok false ↔ trim s = "F" ∨ s = "" ∨ trim s = "0" := by
  constructor
  · intro h
    by_cases hF : trim s = "F" ∨ s = "" ∨ trim s = "0"
    · exact hF
    · by_cases hT : trim s = "T" <;> simp [checkReturnValue, hT, hF] at h
  · intro h
    simp [checkReturnValue, trim_ne_true h, h]

/-! ## The judgement and the clause -/

/-- What a driver returns for a character column. -/
def column : Locked → DriverObject
  | none => .null
  | some s => .string s

/-- The content is one on which the judgement and the clause agree: not
null and not empty, an `F` without padding, a `0` without padding and on
CUBRID only. -/
def IsPlain (kind : DatabaseKind) : Locked → Prop
  | none => False
  | some s => s ≠ "" ∧ (trim s = "F" → s = "F") ∧ (trim s = "0" → s = "0" ∧ kind = .cubrid)

/-- The texts that the clause takes. -/
theorem whereMatches_some {kind : DatabaseKind} {s : String} :
    whereMatches kind (some s) = true ↔ s = "F" ∨ (s = "0" ∧ kind = .cubrid) := by
  cases kind <;> simp [whereMatches, whereLiterals, falseBooleanValue]

/-- **The clause takes what is judged unlocked exactly when it is plain.** -/
theorem whereMatches_of_unlocked_iff {kind : DatabaseKind} {v : Locked} :
    (checkReturnValue (column v) = .ok false → whereMatches kind v = true) ↔ IsPlain kind v := by
  cases v with
  | none => exact iff_of_false (fun h => Bool.noConfusion (h rfl)) id
  | some s =>
      rw [column, checkReturnValue_string_eq_false, whereMatches_some]
      constructor
      · intro h
        refine ⟨?_, fun hF => ?_, fun h0 => ?_⟩
        · rintro rfl
          rcases h (.inr (.inl rfl)) with hF | ⟨h0, -⟩
          · exact absurd hF (by decide)
          · exact absurd h0 (by decide)
        · rcases h (.inl hF) with hs | ⟨rfl, -⟩
          · exact hs
          · exact absurd hF (by decide)
        · rcases h (.inr (.inr h0)) with rfl | hs
          · exact absurd h0 (by decide)
          · exact hs
      · rintro ⟨hne, hF, h0⟩ (h | h | h)
        · exact .inl (hF h)
        · exact absurd h hne
        · exact .inr (h0 h)

/-! ## A node that is alone -/

section Alone

variable {ι : Type} [DecidableEq ι]

/-- The row with its committed content, and no node that has started. -/
def atRest (v : Locked) : Cluster ι := ⟨⟨v, none⟩, fun _ => Node.fresh⟩

/-- The calls of a node's first attempt: `acquireLock` up to the select,
and the update, the commit and the rollback of the `finally` block. -/
def firstAttempt (i : ι) (v : Locked) : List (ι × NodeAction) :=
  [(i, .update), (i, .attempt), (i, .returns), (i, .returns), (i, .selected (column v)),
    (i, .returns), (i, .returns), (i, .returns)]

/-- The node gets the lock at its first attempt, when no other makes a
step. -/
def AcquiresAlone (kind : DatabaseKind) (i : ι) (v : Locked) : Prop :=
  ∃ S, perform (Cluster.step kind) (atRest v) (firstAttempt i v) = some S ∧
    (S.node i).pc = .changeLog

variable {kind : DatabaseKind} {i : ι} {v : Locked}

/-- The node has judged the row unlocked and is about to update it. -/
def aboutToUpdate (i : ι) (v : Locked) : Cluster ι :=
  (atRest v).setNode i ⟨.acquireUpdate, false, true, false⟩

theorem perform_firstAttempt (h : checkReturnValue (column v) = .ok false) :
    perform (Cluster.step kind) (atRest v) (firstAttempt i v) =
      perform (Cluster.step kind) (aboutToUpdate i v)
        [(i, .returns), (i, .returns), (i, .returns)] := by
  simp [firstAttempt, perform, Cluster.step, Cluster.act, Cluster.returns, Cluster.setNode,
    atRest, aboutToUpdate, Node.fresh, LockTable.rollback, LockTable.isWriter, Pc.afterSelect, h]

/-- **A node that is alone gets what it has judged unlocked exactly when
the clause takes it.** -/
theorem acquiresAlone_iff (h : checkReturnValue (column v) = .ok false) :
    AcquiresAlone kind i v ↔ whereMatches kind v = true := by
  rw [AcquiresAlone, perform_firstAttempt h]
  by_cases hmatch : whereMatches kind v = true
  · -- the write is alone, so the commit makes it the content
    simp [perform, Cluster.step, Cluster.act, Cluster.returns, Cluster.setNode, aboutToUpdate,
      atRest, LockTable.write, LockTable.commit, Pc.afterAcquire, hmatch]
  · -- no row is updated, and after the rollback the node waits again
    simp [perform, Cluster.step, Cluster.act, Cluster.returns, Cluster.setNode, aboutToUpdate,
      atRest, Pc.afterAcquire, hmatch]

/-- What is asked of the judgement: what it calls unlocked the clause
takes, so that a node that is alone gets the lock at its first attempt. -/
def TakenWhenUnlocked (kind : DatabaseKind) (i : ι) (v : Locked) : Prop :=
  checkReturnValue (column v) = .ok false → whereMatches kind v = true ∧ AcquiresAlone kind i v

/-- **A row that is judged unlocked is taken when its content is plain**,
and only then. -/
theorem takenWhenUnlocked_iff (kind : DatabaseKind) (i : ι) (v : Locked) :
    TakenWhenUnlocked kind i v ↔ IsPlain kind v := by
  rw [← whereMatches_of_unlocked_iff]
  constructor
  · intro h hjudged
    exact (h hjudged).1
  · intro h hjudged
    exact ⟨h hjudged, (acquiresAlone_iff hjudged).2 (h hjudged)⟩

/-- **A null is judged unlocked and not taken.** -/
theorem not_takenWhenUnlocked_null : ¬TakenWhenUnlocked .other () none := by
  intro h
  have hmatch : whereMatches .other none = true := (h rfl).1
  exact Bool.noConfusion hmatch

end Alone

/-! ## The decoders -/

/-- The types that the boolean type is asked to decode. -/
def isConverted : DriverObject → Bool
  | .string _ | .integer _ | .long _ | .boolean _ => true
  | .null | .number _ => false

/-- What is asked of the decoders: what `checkReturnValue` calls locked
`listLocks` counts and, when it is of a type that is converted, becomes the
true literal, and nothing else. -/
def DecodersAgree (v : DriverObject) : Prop :=
  ∀ locked, checkReturnValue v = .ok locked →
    (∀ rows row, row ∈ rows → row.locked = v → (locked = true ↔ row ∈ countedRows rows)) ∧
      (isConverted v = true →
        (locked = true ↔ convertObjectToString v = .ok (some (booleanValue true))))

/-- The value is one that all decoders read alike: a number is zero or one,
as its type is written, and a `T` is not padded. -/
def IsCanonical : DriverObject → Prop
  | .integer n | .long n => n = 0 ∨ n = 1
  | .number n => n ≠ 1
  | .string s => trim s = "T" → s = "T"
  | .null | .boolean _ => True

variable {v : DriverObject} {locked : Bool}

/-- A row is counted by its own content. -/
theorem mem_countedRows {rows : List LockRow} {row : LockRow} (h : row ∈ rows) :
    row ∈ countedRows rows ↔ row.isLocked = true := by
  rw [countedRows, List.mem_filter]
  exact and_iff_right h

/-- So the counting agrees on a value when it does for a row with it. -/
theorem counted_iff {b : Bool} (hb : ∀ row : LockRow, row.locked = v → row.isLocked = b) :
    (∀ rows row, row ∈ rows → row.locked = v → (locked = true ↔ row ∈ countedRows rows)) ↔
      locked = b := by
  constructor
  · intro h
    have hrow := h [⟨.null, v, none, none⟩] _ List.mem_cons_self rfl
    rw [mem_countedRows List.mem_cons_self, hb _ rfl] at hrow
    exact Bool.eq_iff_iff.2 hrow
  · rintro rfl rows row hrow hv
    rw [mem_countedRows hrow, hb row hv]

theorem booleanValue_inj : ∀ {b c : Bool}, booleanValue b = booleanValue c ↔ b = c := by
  decide

/-- The decoders side by side, where each has a value. -/
theorem decodersAgree_iff_eq {b c : Bool} (hjudged : checkReturnValue v = .ok locked)
    (hb : ∀ row : LockRow, row.locked = v → row.isLocked = b)
    (hc : isConverted v = true → convertObjectToString v = .ok (some (booleanValue c))) :
    DecodersAgree v ↔ locked = b ∧ (isConverted v = true → locked = c) := by
  have hliteral : isConverted v = true →
      ((locked = true ↔ convertObjectToString v = .ok (some (booleanValue true))) ↔
        locked = c) := by
    intro hv
    rw [hc hv, Except.ok.injEq, Option.some.injEq, booleanValue_inj]
    exact Bool.eq_iff_iff.symm
  constructor
  · intro h
    obtain ⟨hrows, hconverted⟩ := h locked hjudged
    exact ⟨(counted_iff hb).1 hrows, fun hv => (hliteral hv).1 (hconverted hv)⟩
  · rintro ⟨hrows, hconverted⟩ locked' hjudged'
    obtain rfl : locked = locked' := Except.ok.inj (hjudged.symm.trans hjudged')
    exact ⟨(counted_iff hb).2 hrows, fun hv => (hliteral hv).2 (hconverted hv)⟩

/-- A text that is judged is not a spelling of null, as it has one of the
three letters or none. -/
theorem not_isNullWord {s : String} (h : checkReturnValue (.string s) = .ok locked) :
    isNullWord s = false := by
  rw [Bool.eq_false_iff]
  intro hnull
  have hword : s.toList.map Char.toLower = "null".toList := eq_of_beq hnull
  have hletter : ∀ c : Char, c.toLower ∉ "null".toList → trim s ≠ String.singleton c := by
    intro c hne htrim
    have hmem : c ∈ s.toList := mem_of_mem_trim (by simp [htrim])
    exact hne (hword ▸ List.mem_map_of_mem hmem)
  cases locked with
  | true => exact hletter 'T' (by decide) (checkReturnValue_string_eq_true.1 h)
  | false =>
      rcases checkReturnValue_string_eq_false.1 h with hF | rfl | h0
      · exact hletter 'F' (by decide) hF
      · exact absurd hword (by decide)
      · exact hletter '0' (by decide) h0

/-- A text that is judged is converted to the same. -/
theorem convertObjectToString_string {s : String}
    (h : checkReturnValue (.string s) = .ok locked) :
    convertObjectToString (.string s) = .ok (some (booleanValue locked)) := by
  have hnull := not_isNullWord h
  cases locked with
  | true =>
      rw [checkReturnValue_string_eq_true] at h
      simp [convertObjectToString, hnull, h]
  | false =>
      rw [checkReturnValue_string_eq_false] at h
      simp [convertObjectToString, hnull, trim_ne_true h, h]

/-- A row with a text is counted when the text is the letter itself. -/
theorem isLocked_string {s : String} (row : LockRow) (h : row.locked = .string s) :
    row.isLocked = (s == "T") := by
  rw [LockRow.isLocked, h]
  rfl

/-- A row with a number is counted when its `intValue` is one. -/
theorem isLocked_of_intValue {n : Int} (hn : v.intValue = some n) (row : LockRow)
    (h : row.locked = v) : row.isLocked = (n == 1) := by
  rw [LockRow.isLocked, h, hn]

/-- A text that is not judged has nothing to agree on, nor a letter to
be padded. -/
theorem decodersAgree_string (s : String) :
    DecodersAgree (.string s) ↔ (trim s = "T" → s = "T") := by
  cases hjudged : checkReturnValue (.string s) with
  | error e =>
      refine iff_of_true (fun locked h => ?_) fun hT => ?_
      · rw [hjudged] at h
        cases h
      · rw [checkReturnValue_string_eq_true.2 hT] at hjudged
        cases hjudged
  | ok locked =>
      rw [decodersAgree_iff_eq hjudged isLocked_string
        fun _ => convertObjectToString_string hjudged]
      cases locked with
      | true =>
          have hT := checkReturnValue_string_eq_true.1 hjudged
          by_cases hs : s = "T" <;> simp [hT, hs]
      | false =>
          have hT := trim_ne_true (checkReturnValue_string_eq_false.1 hjudged)
          have hs : s ≠ "T" := by
            rintro rfl
            exact hT (by decide)
          simp [hT, hs]

/-- Not zero and one are the same for zero and one only. -/
theorem ne_zero_eq_one_iff {n : Int} : (n != 0) = (n == 1) ↔ n = 0 ∨ n = 1 := by
  rw [Bool.eq_iff_iff, bne_iff_ne, beq_iff_eq]
  omega

/-- **The decoders agree on a canonical value**, and on no other. -/
theorem decodersAgree_iff (v : DriverObject) : DecodersAgree v ↔ IsCanonical v := by
  cases v with
  | null =>
      have hrow : ∀ row : LockRow, row.locked = .null → row.isLocked = false := by
        intro row h
        rw [LockRow.isLocked, h]
        rfl
      have hagree := decodersAgree_iff_eq (c := false) rfl hrow fun h => Bool.noConfusion h
      exact iff_of_true (hagree.2 ⟨rfl, fun _ => rfl⟩) trivial
  | string s => exact decodersAgree_string s
  | integer n =>
      rw [decodersAgree_iff_eq rfl (isLocked_of_intValue rfl) fun _ => rfl]
      exact ⟨fun h => ne_zero_eq_one_iff.1 (h.2 rfl),
        fun h => ⟨ne_zero_eq_one_iff.2 h, fun _ => ne_zero_eq_one_iff.2 h⟩⟩
  | long n =>
      rw [decodersAgree_iff_eq rfl (isLocked_of_intValue rfl) fun _ => rfl]
      refine ⟨fun h => ne_zero_eq_one_iff.1 (h.2 rfl), fun h => ⟨?_, fun _ =>
        ne_zero_eq_one_iff.2 h⟩⟩
      -- the low 32 bits of zero and one are themselves
      rcases h with rfl | rfl <;> rfl
  | number n =>
      rw [decodersAgree_iff_eq rfl (isLocked_of_intValue rfl) (c := false)
        fun h => Bool.noConfusion h]
      have hone : (false = (n == 1)) ↔ n ≠ 1 := by rw [eq_comm, beq_eq_false_iff_ne]
      exact ⟨fun h => hone.1 h.1, fun h => ⟨hone.2 h, fun _ => rfl⟩⟩
  | boolean b =>
      have hrow : ∀ row : LockRow, row.locked = .boolean b → row.isLocked = b := by
        intro row h
        rw [LockRow.isLocked, h]
        rfl
      exact iff_of_true ((decodersAgree_iff_eq rfl hrow fun _ => rfl).2 ⟨rfl, fun _ => rfl⟩) trivial

/-- **Two is locked for the judgement and unlocked for the others.** -/
theorem not_decodersAgree_two : ¬DecodersAgree (.integer 2) := by
  intro h
  have hliteral := (h true rfl).2 rfl
  exact absurd (hliteral.1 rfl) (by decide)

end Zooffice
