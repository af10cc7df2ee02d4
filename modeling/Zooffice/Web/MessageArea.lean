import Mathlib.Data.List.Induction
import Mathlib.Data.List.Nodup
import Zooffice.Web.Model.MessageArea
/-!
# The colour of the message that is shown

A message is shown until its timer or `hideMsg` takes it away. A message
that is shown in place of another one cancels the timer of that, and with
it the only thing that would take the other colour from the element. So a
message has its own colour alone exactly as long as no message of another
colour is still shown when it comes.
-/


namespace Zooffice

namespace MessageArea

variable {s : MessageArea} {color c : Colour} {event : PageEvent} {events : List PageEvent}

/-- The colour of the message that is shown: its timer is pending. -/
def shown (s : MessageArea) : Option Colour :=
  (s.timers.find? fun t => some t.1 = s.msgTimeout).map Prod.snd

/-- The element has the class of the colour. -/
def Carries (s : MessageArea) (c : Colour) : Prop := c.className ∈ s.className

/-- The element has the colour of the message that is shown, and no other. -/
def Coloured (s : MessageArea) : Prop :=
  ∀ color, s.shown = some color → ∀ c, s.Carries c ↔ c = color

/-- The colour that an event shows a message in. -/
def colorOf : PageEvent → Option Colour
  | .showSuccessMsg _ => some .success
  | .showInformation _ => some .info
  | .showWarning _ => some .block
  | .hideMsg | .timeout _ | .fadeEnds => none

/-- No message of another colour is shown when the event comes. -/
def Allows (s : MessageArea) (event : PageEvent) : Prop :=
  ∀ color, colorOf event = some color → s.shown = none ∨ s.shown = some color

/-- Whenever a message is shown the element has its colour alone. -/
def KeepsColours (events : List PageEvent) : Prop :=
  ∀ handled, handled <+: events → (init.handleAll handled).Coloured

theorem className_inj {c c' : Colour} (h : c.className = c'.className) : c = c' := by
  cases c <;> cases c' <;> first | rfl | exact absurd h (by decide)

/-! ## Fades leave the message alone -/

theorem dequeue_keeps (s : MessageArea) (fs : List Fade) :
    (s.dequeue fs).className = s.className ∧ (s.dequeue fs).timers = s.timers ∧
      (s.dequeue fs).msgTimeout = s.msgTimeout := by
  induction fs with
  | nil => exact ⟨rfl, rfl, rfl⟩
  | cons f fs ih =>
      cases f
      · rw [dequeue]
        split
        · exact ih
        · exact ⟨rfl, rfl, rfl⟩
      · rw [dequeue]
        split
        · exact ⟨rfl, rfl, rfl⟩
        · exact ih

theorem fade_keeps (s : MessageArea) (f : Fade) :
    (s.fade f).className = s.className ∧ (s.fade f).timers = s.timers ∧
      (s.fade f).msgTimeout = s.msgTimeout := by
  unfold fade
  split
  · exact ⟨rfl, rfl, rfl⟩
  · exact dequeue_keeps s _

@[simp] theorem className_fade (f : Fade) : (s.fade f).className = s.className :=
  (fade_keeps s f).1

@[simp] theorem timers_fade (f : Fade) : (s.fade f).timers = s.timers := (fade_keeps s f).2.1

@[simp] theorem msgTimeout_fade (f : Fade) : (s.fade f).msgTimeout = s.msgTimeout :=
  (fade_keeps s f).2.2

theorem fadeEnds_keeps (s : MessageArea) :
    s.fadeEnds.className = s.className ∧ s.fadeEnds.timers = s.timers ∧
      s.fadeEnds.msgTimeout = s.msgTimeout := by
  unfold fadeEnds
  split
  · exact ⟨rfl, rfl, rfl⟩
  · exact dequeue_keeps s _
  · exact dequeue_keeps s.hide _

/-! ## One timer -/

/-- No timer is pending, or the one that the page knows of. -/
def OneTimer (s : MessageArea) : Prop :=
  s.timers = [] ∨ ∃ timer color, s.timers = [(timer, color)] ∧ s.msgTimeout = some timer

theorem timers_clearTimeout (h : s.OneTimer) : s.clearTimeout.timers = [] := by
  rcases h with h | ⟨timer, color, h, htimeout⟩
  · rw [clearTimeout, h]
    rfl
  · rw [clearTimeout, h, htimeout]
    simp

theorem shown_eq_none_iff (h : s.OneTimer) : s.shown = none ↔ s.timers = [] := by
  rcases h with h | ⟨timer, color, h, htimeout⟩
  · simp [shown, h]
  · simp [shown, h, htimeout]

/-- The pending timer is that of the message that is shown. -/
theorem shown_eq_some_iff (h : s.OneTimer) :
    s.shown = some color ↔ ∃ timer, s.timers = [(timer, color)] := by
  rcases h with h | ⟨timer, color', h, htimeout⟩
  · simp [shown, h]
  · simp [shown, h, htimeout]

/-- What every step keeps: one timer, and no class twice. -/
structure Ordered (s : MessageArea) : Prop where
  oneTimer : s.OneTimer
  nodup : s.className.Nodup

/-! ## The steps -/

theorem mem_addClass {name : Text} (s : MessageArea) (other : Text) :
    name ∈ (s.addClass other).className ↔ name ∈ s.className ∨ name = other := by
  unfold addClass
  split
  · next hmem =>
      constructor
      · exact Or.inl
      · rintro (h | rfl)
        · exact h
        · exact hmem
  · rw [List.mem_append, List.mem_singleton]

theorem nodup_addClass (h : s.className.Nodup) (name : Text) :
    (s.addClass name).className.Nodup := by
  unfold addClass
  split
  · exact h
  · next hmem =>
      exact List.nodup_append.2 ⟨h, List.nodup_singleton name, fun a ha b hb hab =>
        hmem (List.mem_singleton.1 hb ▸ hab ▸ ha)⟩

section Show

variable (color : Colour) (message : Text)

theorem className_showMsg :
    (s.showMsg color message).className = (s.addClass color.className).className := by
  rw [showMsg, setTimeout, clearTimeout]
  dsimp only
  rw [className_fade]
  unfold hide addClass
  split <;> rfl

theorem timers_showMsg (h : s.OneTimer) : ∃ timer,
    (s.showMsg color message).timers = [(timer, color)] ∧
      (s.showMsg color message).msgTimeout = some timer := by
  let s' : MessageArea :=
    MessageArea.fade { (s.hide.addClass color.className) with html := message } .fadeIn
  have hkeep : s'.timers = s.timers ∧ s'.msgTimeout = s.msgTimeout := by
    refine ⟨(timers_fade .fadeIn).trans ?_, (msgTimeout_fade .fadeIn).trans ?_⟩
    · unfold addClass
      split <;> rfl
    · unfold addClass
      split <;> rfl
  have hone : s'.OneTimer := by rwa [OneTimer, hkeep.1, hkeep.2]
  have hcleared := timers_clearTimeout hone
  refine ⟨s'.clearTimeout.nextTimer, ?_, rfl⟩
  change s'.clearTimeout.timers ++ [(s'.clearTimeout.nextTimer, color)] = _
  rw [hcleared, List.nil_append]

theorem ordered_showMsg (h : s.Ordered) : (s.showMsg color message).Ordered := by
  obtain ⟨timer, htimers, htimeout⟩ := timers_showMsg color message h.oneTimer
  refine ⟨Or.inr ⟨timer, color, htimers, htimeout⟩, ?_⟩
  rw [className_showMsg]
  exact nodup_addClass h.nodup _

theorem shown_showMsg (h : s.OneTimer) : (s.showMsg color message).shown = some color := by
  obtain ⟨timer, htimers, htimeout⟩ := timers_showMsg color message h
  rw [shown, htimers, htimeout]
  simp

/-- **A message adds its colour** to those that are there. -/
theorem carries_showMsg : (s.showMsg color message).Carries c ↔ s.Carries c ∨ c = color := by
  rw [Carries, className_showMsg, mem_addClass]
  exact or_congr_right ⟨className_inj, fun h => h ▸ rfl⟩

end Show

/-- An element that is not displayed is left as it is. -/
theorem hideMsg_of_not_displayed (h : s.displayed = false) : s.hideMsg = s := by
  rw [hideMsg, if_neg (by rw [h]; decide)]

theorem hideMsg_of_displayed (h : s.displayed = true) (ho : s.Ordered) :
    s.hideMsg.timers = [] ∧ s.hideMsg.Ordered ∧ ∀ c, ¬ s.hideMsg.Carries c := by
  have htimers : s.hideMsg.timers = [] := by
    rw [hideMsg, if_pos h]
    exact (timers_fade .fadeOut).trans (timers_clearTimeout ho.oneTimer)
  have hclass : s.hideMsg.className = ((s.className.erase Colour.success.className).erase
      Colour.info.className).erase Colour.block.className := by
    rw [hideMsg, if_pos h]
    simp only [removeClass, className_fade]
    rfl
  have hnodup : s.hideMsg.className.Nodup := by
    rw [hclass]
    exact ((ho.nodup.erase _).erase _).erase _
  refine ⟨htimers, ⟨Or.inl htimers, hnodup⟩, fun c => ?_⟩
  rw [Carries, hclass, ((ho.nodup.erase _).erase _).mem_erase_iff, (ho.nodup.erase _).mem_erase_iff,
    ho.nodup.mem_erase_iff]
  rintro ⟨hblock, hinfo, hsuccess, -⟩
  cases c
  · exact hsuccess rfl
  · exact hinfo rfl
  · exact hblock rfl

/-- A timer that is not pending does nothing. The pending one takes its
colour away. -/
theorem timeout_cases (timer : ℕ) (ho : s.Ordered) : s.timeout timer = s ∨
    ∃ color, s.shown = some color ∧ (s.timeout timer).timers = [] ∧ (s.timeout timer).Ordered ∧
      ∀ c, (s.timeout timer).Carries c ↔ c ≠ color ∧ s.Carries c := by
  cases hfind : s.timers.find? fun t => t.1 = timer with
  | none =>
      left
      rw [timeout, hfind]
  | some t =>
      right
      have hmem := List.mem_of_find?_eq_some hfind
      obtain ⟨color, hshown⟩ : ∃ color, s.timers = [(t.1, color)] ∧ t.2 = color := by
        rcases ho.oneTimer with hnone | ⟨timer', color, hone, -⟩
        · rw [hnone] at hmem
          exact absurd hmem List.not_mem_nil
        · rw [hone, List.mem_singleton] at hmem
          exact ⟨color, by rw [hone, hmem], by rw [hmem]⟩
      obtain ⟨htimers, hcolor⟩ := hshown
      have hempty : (s.timeout timer).timers = [] := by
        rw [timeout, hfind]
        dsimp only
        rw [removeClass]
        dsimp only
        rw [timers_fade, htimers, ← hcolor]
        exact List.erase_cons_head _ _
      have hclass : (s.timeout timer).className = s.className.erase color.className := by
        rw [timeout, hfind]
        dsimp only
        rw [removeClass]
        dsimp only
        rw [className_fade, hcolor]
      refine ⟨color, (shown_eq_some_iff ho.oneTimer).2 ⟨_, htimers⟩, hempty, ⟨Or.inl hempty, ?_⟩,
        fun c => ?_⟩
      · rw [hclass]
        exact ho.nodup.erase _
      · rw [Carries, hclass, ho.nodup.mem_erase_iff]
        exact and_congr_left fun _ => not_congr ⟨className_inj, fun h => h ▸ rfl⟩

theorem ordered_handle (ho : s.Ordered) (event : PageEvent) : (s.handle event).Ordered := by
  cases event with
  | showSuccessMsg message => exact ordered_showMsg _ message ho
  | showInformation message => exact ordered_showMsg _ message ho
  | showWarning message => exact ordered_showMsg _ message ho
  | hideMsg =>
      rw [handle]
      cases hd : s.displayed
      · rwa [hideMsg_of_not_displayed hd]
      · exact (hideMsg_of_displayed hd ho).2.1
  | timeout timer =>
      rcases timeout_cases timer ho with h | ⟨color, -, -, h, -⟩
      · rwa [handle, h]
      · exact h
  | fadeEnds =>
      obtain ⟨hclass, htimers, htimeout⟩ := fadeEnds_keeps s
      exact ⟨by rw [handle, OneTimer, htimers, htimeout]; exact ho.oneTimer,
        by rw [handle, hclass]; exact ho.nodup⟩

/-! ## Runs -/

theorem ordered_init : init.Ordered := ⟨Or.inl rfl, by decide⟩

theorem handleAll_concat (s : MessageArea) (events : List PageEvent) (event : PageEvent) :
    s.handleAll (events ++ [event]) = (s.handleAll events).handle event := by
  rw [handleAll, List.foldl_append]
  rfl

theorem ordered_handleAll (events : List PageEvent) : (init.handleAll events).Ordered := by
  induction events using List.reverseRecOn with
  | nil => exact ordered_init
  | append_singleton events event ih =>
      rw [handleAll_concat]
      exact ordered_handle ih event

/-- A shown message is there in its own colour, and without one there is
none. -/
def Clean (s : MessageArea) : Prop := ∀ c, s.Carries c ↔ s.shown = some c

theorem Clean.coloured (h : s.Clean) : s.Coloured := by
  intro color hshown c
  rw [h c, hshown, Option.some_inj]
  exact eq_comm

/-- **A message that is allowed** replaces the colour of the one before. -/
theorem Clean.showMsg (h : s.Clean) (ho : s.OneTimer)
    (hallows : s.shown = none ∨ s.shown = some color) (message : Text) :
    (s.showMsg color message).Clean := by
  intro c
  rw [carries_showMsg, shown_showMsg _ _ ho, h c, Option.some_inj]
  constructor
  · rintro (hc | rfl)
    · rcases hallows with hnone | hsome
      · rw [hnone] at hc
        exact absurd hc (Option.some_ne_none c).symm
      · rw [hsome, Option.some_inj] at hc
        exact hc
    · rfl
  · rintro rfl
    exact Or.inr rfl

theorem Clean.handle (h : s.Clean) (ho : s.Ordered) (hallows : s.Allows event) :
    (s.handle event).Clean := by
  cases event with
  | showSuccessMsg message => exact h.showMsg ho.oneTimer (hallows _ rfl) message
  | showInformation message => exact h.showMsg ho.oneTimer (hallows _ rfl) message
  | showWarning message => exact h.showMsg ho.oneTimer (hallows _ rfl) message
  | hideMsg =>
      rw [MessageArea.handle]
      cases hd : s.displayed
      · rwa [hideMsg_of_not_displayed hd]
      · obtain ⟨htimers, hordered, hnone⟩ := hideMsg_of_displayed hd ho
        intro c
        rw [(shown_eq_none_iff hordered.oneTimer).2 htimers]
        exact iff_of_false (hnone c) (Option.some_ne_none c).symm
  | timeout timer =>
      rw [MessageArea.handle]
      rcases timeout_cases timer ho with heq | ⟨color, hshown, htimers, hordered, hcarries⟩
      · rwa [heq]
      · intro c
        rw [hcarries, h c, hshown, (shown_eq_none_iff hordered.oneTimer).2 htimers, Option.some_inj]
        exact iff_of_false (fun hc => hc.1 hc.2.symm) (Option.some_ne_none c).symm
  | fadeEnds =>
      obtain ⟨hclass, htimers, htimeout⟩ := fadeEnds_keeps s
      intro c
      rw [MessageArea.handle, Carries, hclass, shown, htimers, htimeout]
      exact h c

/-- A message that is not allowed leaves two colours. -/
theorem allows_of_coloured (ho : s.OneTimer) (h : s.Coloured) (h' : (s.handle event).Coloured) :
    s.Allows event := by
  intro color hcolor
  obtain ⟨message, hevent⟩ : ∃ message, s.handle event = s.showMsg color message := by
    cases event with
    | showSuccessMsg message => exact ⟨message, Option.some_inj.1 hcolor ▸ rfl⟩
    | showInformation message => exact ⟨message, Option.some_inj.1 hcolor ▸ rfl⟩
    | showWarning message => exact ⟨message, Option.some_inj.1 hcolor ▸ rfl⟩
    | hideMsg => cases hcolor
    | timeout timer => cases hcolor
    | fadeEnds => cases hcolor
  rw [hevent] at h'
  cases hshown : s.shown with
  | none => exact Or.inl rfl
  | some before =>
      have hbefore : s.Carries before := (h before hshown before).2 rfl
      have hboth := (carries_showMsg color message).2 (Or.inl hbefore)
      have hsame := (h' color (shown_showMsg _ _ ho) before).1 hboth
      exact Or.inr (congrArg some hsame)

/-- **A message has its own colour alone, at all times, exactly when each
comes while none of another colour is shown.** -/
theorem keepsColours_iff (events : List PageEvent) :
    KeepsColours events ↔
      ∀ handled event, handled ++ [event] <+: events → (init.handleAll handled).Allows event := by
  constructor
  · intro h handled event hpre
    have hafter := h _ hpre
    rw [handleAll_concat] at hafter
    exact allows_of_coloured (ordered_handleAll handled).oneTimer
      (h handled ((List.prefix_append handled [event]).trans hpre)) hafter
  · intro h handled hpre
    suffices hclean : (init.handleAll handled).Clean from hclean.coloured
    induction handled using List.reverseRecOn with
    | nil =>
        intro c
        cases c <;> exact iff_of_false (by unfold Carries; decide) (by decide)
    | append_singleton handled event ih =>
        rw [handleAll_concat]
        exact (ih ((List.prefix_append handled [event]).trans hpre)).handle
          (ordered_handleAll handled) (h handled event hpre)

/-- **A warning right after a success** has both colours. -/
theorem not_keepsColours_warning :
    ¬ KeepsColours [.showSuccessMsg "saved".toList, .showWarning "full".toList] := by
  intro h
  have hboth := h _ (List.prefix_refl _) .block (by decide) .success
  exact absurd (hboth.1 (by unfold Carries; decide)) (by decide)

/-! ## What is shown becomes visible -/

/-- Whether an element is displayed when the fades are over. -/
def leads : Bool → List Fade → Bool
  | displayed, [] => displayed
  | _, f :: fs => leads (f = .fadeIn) fs

/-- Whether the element is displayed when all of its fades are over. -/
def settles (s : MessageArea) : Bool := leads s.displayed (s.running.toList ++ s.waiting)

/-- The last fade decides. -/
theorem leads_concat (displayed : Bool) (fs : List Fade) (f : Fade) :
    leads displayed (fs ++ [f]) = decide (f = .fadeIn) := by
  induction fs generalizing displayed with
  | nil => rfl
  | cons g fs ih => exact ih _

/-- Fades that have nothing to do can be left out. -/
theorem settles_dequeue (s : MessageArea) (fs : List Fade) :
    (s.dequeue fs).settles = leads s.displayed fs := by
  induction fs with
  | nil => rfl
  | cons f fs ih =>
      rw [leads]
      cases f <;> cases hd : s.displayed <;> rw [dequeue, hd]
      · rfl
      · exact ih.trans (by rw [hd]; rfl)
      · exact ih.trans (by rw [hd]; rfl)
      · rfl

theorem settles_fade (s : MessageArea) (f : Fade) :
    (s.fade f).settles = decide (f = .fadeIn) := by
  unfold fade
  split
  · rw [settles]
    dsimp only
    rw [← List.append_assoc, leads_concat]
  · rw [settles_dequeue, leads_concat]

/-- A fade that fades in with none behind it displays the element. -/
def FadesIn (s : MessageArea) : Prop :=
  s.running = some .fadeIn → s.waiting = [] → s.displayed = true

theorem fadesIn_dequeue (s : MessageArea) (fs : List Fade) : (s.dequeue fs).FadesIn := by
  induction fs with
  | nil => exact fun h => absurd h (by simp [dequeue])
  | cons f fs ih =>
      cases f <;> cases hd : s.displayed <;> rw [dequeue, hd]
      · exact fun _ _ => rfl
      · exact ih
      · exact ih
      · exact fun h => absurd h (by simp)

theorem fadesIn_fade (s : MessageArea) (f : Fade) : (s.fade f).FadesIn := by
  unfold fade
  split
  · exact fun _ h => absurd h (by simp)
  · exact fadesIn_dequeue s _

/-- The element is displayed in the end exactly when a message is shown. -/
structure Settling (s : MessageArea) : Prop where
  fadesIn : s.FadesIn
  settles_iff : s.settles = true ↔ s.shown ≠ none

/-- What has been faded out has no timer. -/
theorem settling_of_fadeOut {s' : MessageArea}
    (hdisplayed : s'.displayed = (s.fade .fadeOut).displayed)
    (hrunning : s'.running = (s.fade .fadeOut).running)
    (hwaiting : s'.waiting = (s.fade .fadeOut).waiting) (hnone : s'.shown = none) :
    s'.Settling := by
  refine ⟨?_, ?_⟩
  · rw [FadesIn, hdisplayed, hrunning, hwaiting]
    exact fadesIn_fade s .fadeOut
  · have hsettles : s'.settles = (s.fade .fadeOut).settles := by
      rw [settles, settles, hdisplayed, hrunning, hwaiting]
    rw [hsettles, settles_fade, hnone]
    exact iff_of_false (by decide) (not_not.2 rfl)

theorem settling_showMsg (ho : s.OneTimer) (color : Colour) (message : Text) :
    (s.showMsg color message).Settling := by
  refine ⟨fadesIn_fade _ .fadeIn, ?_⟩
  rw [shown_showMsg color message ho]
  exact iff_of_true (settles_fade _ .fadeIn) (Option.some_ne_none color)

theorem settling_fadeEnds (h : s.Settling) : s.fadeEnds.Settling := by
  obtain ⟨-, htimers, htimeout⟩ := fadeEnds_keeps s
  have hshown : s.fadeEnds.shown = s.shown := by rw [shown, shown, htimers, htimeout]
  suffices hfades : s.fadeEnds.FadesIn ∧ s.fadeEnds.settles = s.settles from
    ⟨hfades.1, by rw [hfades.2, hshown]; exact h.settles_iff⟩
  unfold fadeEnds
  split
  · exact ⟨h.fadesIn, rfl⟩
  · next hrunning =>
      refine ⟨fadesIn_dequeue s _, ?_⟩
      rw [settles_dequeue, settles, hrunning]
      cases hwaiting : s.waiting with
      | nil => exact h.fadesIn hrunning hwaiting
      | cons f fs => rfl
  · next hrunning =>
      refine ⟨fadesIn_dequeue s.hide _, ?_⟩
      rw [settles_dequeue, settles, hrunning]
      rfl

theorem settling_handle (h : s.Settling) (ho : s.Ordered) (event : PageEvent) :
    (s.handle event).Settling := by
  cases event with
  | showSuccessMsg message => exact settling_showMsg ho.oneTimer _ message
  | showInformation message => exact settling_showMsg ho.oneTimer _ message
  | showWarning message => exact settling_showMsg ho.oneTimer _ message
  | hideMsg =>
      rw [handle]
      cases hd : s.displayed
      · rwa [hideMsg_of_not_displayed hd]
      · obtain ⟨htimers, hordered, -⟩ := hideMsg_of_displayed hd ho
        have hnone := (shown_eq_none_iff hordered.oneTimer).2 htimers
        refine settling_of_fadeOut (s := s.clearTimeout) ?_ ?_ ?_ hnone <;>
          rw [hideMsg, if_pos hd] <;> rfl
  | timeout timer =>
      rw [handle]
      rcases timeout_cases timer ho with heq | ⟨color, -, htimers, hordered, -⟩
      · rwa [heq]
      · have hnone := (shown_eq_none_iff hordered.oneTimer).2 htimers
        unfold timeout at hnone ⊢
        split at hnone
        · exact h
        · next t hfind =>
            exact settling_of_fadeOut (s := { s with timers := s.timers.erase t }) rfl rfl rfl hnone
  | fadeEnds => exact settling_fadeEnds h

/-- **A message that is shown becomes visible**, and nothing else does:
whatever fades are under way, they leave the element displayed exactly when
a timer is pending. -/
theorem settles_iff_shown (events : List PageEvent) :
    (init.handleAll events).settles = true ↔ (init.handleAll events).shown ≠ none := by
  suffices h : (init.handleAll events).Settling from h.settles_iff
  induction events using List.reverseRecOn with
  | nil => exact ⟨fun h => absurd h (by decide), by decide⟩
  | append_singleton events event ih =>
      rw [handleAll_concat]
      exact settling_handle ih (ordered_handleAll events) event

end MessageArea

end Zooffice
