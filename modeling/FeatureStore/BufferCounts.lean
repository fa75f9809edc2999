import FeatureStore.StreamConsumer
import Mathlib.Algebra.BigOperators.Group.List.Basic

/-!
# What the buffers of the consumer count

`_should_flush` counts an item once, or once for each of its messages. One more message adds at
most one to the count, and what is cleared is no longer counted.
-/

namespace FeatureStore

/-- What an item adds to the count of `_should_flush`. -/
def BufferedEvent.weight (item : BufferedEvent) : Nat := max 1 item.messages.length

/-- The views are listed once, the others have no items, and no view has two items of one id. -/
structure StreamBuffers.Listed (buffers : StreamBuffers) : Prop where
  views : buffers.views.Nodup
  unlisted : ∀ viewRef, viewRef ∉ buffers.views → buffers.items viewRef = []
  distinct : ∀ viewRef, ((buffers.items viewRef).map (·.event.eventId)).Nodup

namespace StreamBuffers

variable {buffers : StreamBuffers} {viewRef : String} {items : List BufferedEvent}

theorem count_eq (buffers : StreamBuffers) : buffers.count =
    (buffers.views.map fun viewRef =>
      ((buffers.items viewRef).map BufferedEvent.weight).sum).sum := rfl

/-- A view that changes by at most `k` changes the count by at most `k`. -/
theorem sum_update_le {k : Nat}
    (hitems : (items.map BufferedEvent.weight).sum ≤
      ((buffers.items viewRef).map BufferedEvent.weight).sum + k)
    {views : List String} (hviews : views.Nodup) :
    (views.map fun other => ((Function.update buffers.items viewRef items other).map
      BufferedEvent.weight).sum).sum ≤
      (views.map fun other => ((buffers.items other).map BufferedEvent.weight).sum).sum + k := by
  induction views with
  | nil => exact Nat.zero_le _
  | cons first rest ih =>
      obtain ⟨hfirst, hrest⟩ := List.nodup_cons.mp hviews
      rw [List.map_cons, List.sum_cons, List.map_cons, List.sum_cons]
      by_cases hview : first = viewRef
      · subst hview
        have hothers : (rest.map fun other => ((Function.update buffers.items first items
            other).map BufferedEvent.weight).sum) =
            rest.map fun other => ((buffers.items other).map BufferedEvent.weight).sum := by
          refine List.map_congr_left fun other hother => ?_
          have hne : other ≠ first := by
            rintro rfl
            exact hfirst hother
          rw [Function.update_of_ne hne]
        rw [hothers, Function.update_self]
        omega
      · have hlater := ih hrest
        rw [Function.update_of_ne hview]
        omega

@[simp] theorem items_set_self : (buffers.set viewRef items).items viewRef = items :=
  Function.update_self ..

theorem items_set_ne {other : String} (h : other ≠ viewRef) :
    (buffers.set viewRef items).items other = buffers.items other :=
  Function.update_of_ne h _ _

theorem mem_views_set {other : String} :
    other ∈ (buffers.set viewRef items).views ↔ other ∈ buffers.views ∨ other = viewRef := by
  unfold StreamBuffers.set
  dsimp only
  split
  · rename_i hview
    refine ⟨Or.inl, fun hother => hother.elim id ?_⟩
    rintro rfl
    exact hview
  · rw [List.mem_append, List.mem_singleton]

theorem Listed.set (h : buffers.Listed) (hitems : (items.map (·.event.eventId)).Nodup) :
    (buffers.set viewRef items).Listed where
  views := by
    unfold StreamBuffers.set
    dsimp only
    split
    · exact h.views
    · rename_i hview
      rw [List.nodup_append]
      refine ⟨h.views, List.nodup_singleton _, ?_⟩
      rintro first hfirst second hsecond rfl
      exact hview (List.mem_singleton.mp hsecond ▸ hfirst)
  unlisted := by
    intro other hother
    rw [mem_views_set, not_or] at hother
    rw [items_set_ne hother.2]
    exact h.unlisted other hother.1
  distinct := by
    intro other
    by_cases hview : other = viewRef
    · subst hview
      rw [items_set_self]
      exact hitems
    · rw [items_set_ne hview]
      exact h.distinct other

theorem Listed.count_set (h : buffers.Listed) {k : Nat}
    (hitems : (items.map BufferedEvent.weight).sum ≤
      ((buffers.items viewRef).map BufferedEvent.weight).sum + k) :
    (buffers.set viewRef items).count ≤ buffers.count + k := by
  rw [count_eq, count_eq]
  unfold StreamBuffers.set
  dsimp only
  split
  · exact sum_update_le hitems h.views
  · rename_i hview
    have hempty := h.unlisted viewRef hview
    rw [hempty] at hitems
    have hsame : (buffers.views.map fun other => ((Function.update buffers.items viewRef items
        other).map BufferedEvent.weight).sum) =
        buffers.views.map fun other => ((buffers.items other).map BufferedEvent.weight).sum := by
      refine List.map_congr_left fun other hother => ?_
      have hne : other ≠ viewRef := by
        rintro rfl
        exact hview hother
      rw [Function.update_of_ne hne]
    rw [List.map_append, List.sum_append, hsame]
    simp only [List.map_cons, List.map_nil, List.sum_cons, List.sum_nil, Function.update_self]
      at hitems ⊢
    omega

/-- A message joins at most one item. -/
theorem weight_joinMessage {eventId : String} {message : Option Message}
    (hdistinct : (items.map (·.event.eventId)).Nodup) :
    ((joinMessage items eventId message).map BufferedEvent.weight).sum ≤
      (items.map BufferedEvent.weight).sum + 1 := by
  have hmessage : message.toList.length ≤ 1 := by cases message <;> simp
  induction items with
  | nil => exact Nat.zero_le _
  | cons item rest ih =>
      obtain ⟨hfirst, hrest⟩ := List.nodup_cons.mp hdistinct
      unfold joinMessage at ih ⊢
      rw [List.map_cons, List.map_cons, List.sum_cons, List.map_cons, List.sum_cons]
      by_cases hid : item.event.eventId = eventId
      · -- No other item has the id, so the rest stays as it is.
        have hothers : (rest.map fun other =>
            if other.event.eventId = eventId then
              { other with messages := other.messages ++ message.toList }
            else other) = rest := by
          refine List.map_congr_left (g := id) ?_ |>.trans (List.map_id rest)
          intro other hother
          rw [if_neg]
          · rfl
          · intro hsame
            exact hfirst (List.mem_map.mpr ⟨other, hother, hsame.trans hid.symm⟩)
        rw [hothers, if_pos hid]
        simp only [BufferedEvent.weight, List.length_append]
        omega
      · have hlater := ih hrest
        rw [if_neg hid]
        omega

theorem eventIds_joinMessage (items : List BufferedEvent) (eventId : String)
    (message : Option Message) :
    (joinMessage items eventId message).map (·.event.eventId) =
      items.map (·.event.eventId) := by
  rw [joinMessage, List.map_map]
  refine List.map_congr_left fun item _ => ?_
  dsimp only [Function.comp]
  split <;> rfl

/-- `_buffer` adds at most one to the count. -/
theorem Listed.add (h : buffers.Listed) (recordId : Uuid) (event : StreamFeatureEvent)
    (message : Option Message) :
    (buffers.add recordId event message).1.Listed ∧
      (buffers.add recordId event message).1.count ≤ buffers.count + 1 := by
  unfold StreamBuffers.add
  dsimp only
  split
  · refine ⟨h.set ?_, h.count_set (weight_joinMessage (h.distinct _))⟩
    rw [eventIds_joinMessage]
    exact h.distinct _
  · rename_i hnew
    refine ⟨h.set ?_, h.count_set ?_⟩
    · rw [List.map_append, List.nodup_append]
      refine ⟨h.distinct _, List.nodup_singleton _, ?_⟩
      rintro first hfirst second hsecond rfl
      obtain ⟨item, hitem, rfl⟩ := List.mem_map.mp hfirst
      refine hnew (List.any_eq_true.mpr ⟨item, hitem, ?_⟩)
      exact decide_eq_true (List.mem_singleton.mp hsecond)
    · have hmessage : message.toList.length ≤ 1 := by cases message <;> simp
      rw [List.map_append, List.sum_append]
      simp only [List.map_cons, List.map_nil, List.sum_cons, List.sum_nil, BufferedEvent.weight]
      omega

@[simp] theorem items_clear_self : (buffers.clear viewRef).items viewRef = [] :=
  Function.update_self ..

theorem items_clear_ne {other : String} (h : other ≠ viewRef) :
    (buffers.clear viewRef).items other = buffers.items other :=
  Function.update_of_ne h _ _

theorem Listed.clear (h : buffers.Listed) (viewRef : String) :
    (buffers.clear viewRef).Listed where
  views := h.views
  unlisted := by
    intro other hother
    by_cases hview : other = viewRef
    · subst hview
      exact items_clear_self
    · exact (items_clear_ne hview).trans (h.unlisted other hother)
  distinct := by
    intro other
    by_cases hview : other = viewRef
    · subst hview
      rw [items_clear_self]
      exact List.nodup_nil
    · rw [items_clear_ne hview]
      exact h.distinct other

theorem Listed.count_clear (h : buffers.Listed) (viewRef : String) :
    (buffers.clear viewRef).count ≤ buffers.count :=
  sum_update_le (k := 0) (Nat.zero_le _) h.views

/-- Nothing is buffered for the views that are not pending. -/
def Cleared (buffers : StreamBuffers) (pending : List String) : Prop :=
  ∀ viewRef ∈ buffers.views, viewRef ∉ pending → buffers.items viewRef = []

theorem Cleared.items_eq (h : buffers.Cleared []) (hlisted : buffers.Listed) (viewRef : String) :
    buffers.items viewRef = [] := by
  by_cases hview : viewRef ∈ buffers.views
  · exact h viewRef hview List.not_mem_nil
  · exact hlisted.unlisted viewRef hview

theorem count_of_items (h : ∀ viewRef, buffers.items viewRef = []) : buffers.count = 0 := by
  have hzero : ∀ total ∈ buffers.views.map fun viewRef =>
      ((buffers.items viewRef).map BufferedEvent.weight).sum, total = 0 := by
    intro total htotal
    obtain ⟨viewRef, _, rfl⟩ := List.mem_map.mp htotal
    rw [h viewRef]
    rfl
  exact List.sum_eq_zero hzero

/-- What is in the buffers afterwards was there before, or is the message. -/
theorem mem_items_add {recordId : Uuid} {event : StreamFeatureEvent} {message : Option Message}
    {item : BufferedEvent} (hitem : item ∈ (buffers.add recordId event message).1.items viewRef)
    {other : Message} (hother : other ∈ item.messages) :
    (∃ before ∈ buffers.items viewRef, other ∈ before.messages) ∨ other ∈ message.toList := by
  have hbefore : ∀ {items : List BufferedEvent}, item ∈ (buffers.set event.featureView
      items).items viewRef → item ∈ buffers.items viewRef ∨
        viewRef = event.featureView ∧ item ∈ items := by
    intro items hmem
    by_cases hview : viewRef = event.featureView
    · subst hview
      rw [items_set_self] at hmem
      exact Or.inr ⟨rfl, hmem⟩
    · rw [items_set_ne hview] at hmem
      exact Or.inl hmem
  unfold StreamBuffers.add at hitem
  dsimp only at hitem
  split at hitem
  · rcases hbefore hitem with hmem | ⟨rfl, hmem⟩
    · exact Or.inl ⟨item, hmem, hother⟩
    · obtain ⟨before, hstored, rfl⟩ := List.mem_map.mp hmem
      split at hother
      · exact (List.mem_append.mp hother).imp_left fun hold => ⟨before, hstored, hold⟩
      · exact Or.inl ⟨before, hstored, hother⟩
  · rcases hbefore hitem with hmem | ⟨rfl, hmem⟩
    · exact Or.inl ⟨item, hmem, hother⟩
    · rcases List.mem_append.mp hmem with hold | hnew
      · exact Or.inl ⟨item, hold, hother⟩
      · rw [List.mem_singleton.mp hnew] at hother
        exact Or.inr hother

theorem mem_items_clear {other : String} {item : BufferedEvent}
    (hitem : item ∈ (buffers.clear viewRef).items other) : item ∈ buffers.items other := by
  by_cases hview : other = viewRef
  · subst hview
    rw [items_clear_self] at hitem
    cases hitem
  · rwa [items_clear_ne hview] at hitem

/-- The buffered events of all views. -/
def events (buffers : StreamBuffers) : List BufferedEvent := buffers.views.flatMap buffers.items

theorem count_events (buffers : StreamBuffers) :
    buffers.count = (buffers.events.map BufferedEvent.weight).sum := by
  rw [count_eq, events]
  induction buffers.views with
  | nil => rfl
  | cons viewRef rest ih =>
      rw [List.map_cons, List.sum_cons, List.flatMap_cons, List.map_append, List.sum_append, ih]

theorem length_events_le (buffers : StreamBuffers) : buffers.events.length ≤ buffers.count := by
  rw [count_events]
  induction buffers.events with
  | nil => exact Nat.le_refl _
  | cons item rest ih =>
      rw [List.length_cons, List.map_cons, List.sum_cons]
      have hweight : 1 ≤ item.weight := le_max_left _ _
      omega

theorem length_messages_le (buffers : StreamBuffers) :
    (buffers.events.flatMap (·.messages)).length ≤ buffers.count := by
  rw [count_events]
  induction buffers.events with
  | nil => exact Nat.le_refl _
  | cons item rest ih =>
      rw [List.flatMap_cons, List.length_append, List.map_cons, List.sum_cons]
      have hweight : item.messages.length ≤ item.weight := le_max_right _ _
      omega

end StreamBuffers

end FeatureStore
