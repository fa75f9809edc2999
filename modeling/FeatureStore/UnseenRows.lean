import FeatureStore.OfflineStore

/-!
# Selecting unseen rows

`JobExecutor._unseen_rows`: the staged rows whose event id the target lacks, each
id once. The canonical text of a row is a parameter, since only its equality is
tested. What the selection returns is determined by the ids alone; the texts
decide only whether it raises.
-/

namespace FeatureStore

/-- A Python `dict[str, str]`, in insertion order. -/
abbrev TextMap := List (String × String)

/-- `mapping.setdefault(key, value)`: the mapping afterwards, and the value now
stored under the key. -/
def setDefault (mapping : TextMap) (key value : String) : TextMap × String :=
  match mapping.lookup key with
  | some prior => (mapping, prior)
  | none => (mapping ++ [(key, value)], value)

theorem lookup_setDefault (mapping : TextMap) (key value k : String) :
    ((setDefault mapping key value).1.lookup k).isSome =
      ((mapping.lookup k).isSome || decide (k = key)) := by
  unfold setDefault
  cases h : mapping.lookup key with
  | some prior =>
      by_cases hk : k = key
      · simp [hk, h]
      · simp [hk]
  | none =>
      rw [List.lookup_append]
      by_cases hk : k = key
      · simp [hk, h]
      · have hne : (k == key) = false := beq_eq_false_iff_ne.mpr hk
        simp [hk, hne, List.lookup_cons]

variable (canonicalRow : OfflineRow → String)

/-- The loop over the target table: the canonical text of each event id. -/
def existingById : TextMap → List OfflineRow → Except PyException TextMap
  | existing, [] => .ok existing
  | existing, row :: rest =>
      let (existing, prior) := setDefault existing row.idText (canonicalRow row)
      if prior ≠ canonicalRow row then
        .error (valueError
          s!"offline feature view contains conflicting rows for event_id {row.idText}")
      else existingById existing rest

/-- The loop over the staging table. `unseen` are the rows selected so far, so its
ids are `staged_unseen_ids`. -/
def selectUnseen (existing : TextMap) :
    TextMap → List OfflineRow → List OfflineRow → Except PyException (List OfflineRow)
  | _, unseen, [] => .ok unseen
  | staged, unseen, row :: rest =>
      let (staged, priorStaged) := setDefault staged row.idText (canonicalRow row)
      if priorStaged ≠ canonicalRow row then
        .error (valueError s!"staging contains conflicting rows for event_id {row.idText}")
      else if (unseen.map (·.idText)).contains row.idText then
        selectUnseen existing staged unseen rest
      else
        match existing.lookup row.idText with
        | some priorExisting =>
            if priorExisting ≠ canonicalRow row then
              .error (valueError
                s!"event_id {row.idText} conflicts with existing offline content")
            else selectUnseen existing staged unseen rest
        | none => selectUnseen existing staged (unseen ++ [row]) rest

/-- `JobExecutor._unseen_rows`, on the loaded target. -/
def unseenRows (staging target : List OfflineRow) : Except PyException (List OfflineRow) :=
  match existingById canonicalRow [] target with
  | .error exc => .error exc
  | .ok existing => selectUnseen canonicalRow existing [] [] staging

/-- The event ids of a list of rows. -/
def eventIds (rows : List OfflineRow) : List String := rows.map (·.idText)

@[simp] theorem eventIds_nil : eventIds [] = [] := rfl

@[simp] theorem eventIds_append (first second : List OfflineRow) :
    eventIds (first ++ second) = eventIds first ++ eventIds second :=
  List.map_append

theorem idText_mem_eventIds {row : OfflineRow} {rows : List OfflineRow} (h : row ∈ rows) :
    row.idText ∈ eventIds rows :=
  List.mem_map_of_mem h

variable {canonicalRow}

theorem existingById_ids {existing result : TextMap} {rows : List OfflineRow}
    (h : existingById canonicalRow existing rows = .ok result) (id : String) :
    (result.lookup id).isSome = true ↔
      (existing.lookup id).isSome = true ∨ id ∈ eventIds rows := by
  induction rows generalizing existing with
  | nil =>
      cases h
      simp
  | cons row rest ih =>
      unfold existingById at h
      dsimp only at h
      split at h
      · cases h
      · rw [ih h, lookup_setDefault]
        simp [eventIds, or_assoc]

/-- What the loop over the staging table adds to the rows selected so far. -/
structure Selected (existing : TextMap) (unseen rows result : List OfflineRow) : Prop where
  mem : ∀ row ∈ result, row ∈ unseen ∨ row ∈ rows
  nodup : (eventIds unseen).Nodup → (eventIds result).Nodup
  absent : ∀ id ∈ eventIds result, id ∈ eventIds unseen ∨ (existing.lookup id).isSome = false
  kept : ∀ id ∈ eventIds unseen, id ∈ eventIds result
  complete : ∀ id ∈ eventIds rows, id ∈ eventIds result ∨ (existing.lookup id).isSome = true

theorem selectUnseen_selected {existing staged : TextMap} {unseen rows result : List OfflineRow}
    (h : selectUnseen canonicalRow existing staged unseen rows = .ok result) :
    Selected existing unseen rows result := by
  induction rows generalizing staged unseen with
  | nil =>
      cases h
      exact ⟨fun _ h => Or.inl h, id, fun _ h => Or.inl h, fun _ h => h, by simp⟩
  | cons row rest ih =>
      -- A row that is skipped leaves the selection to the rest.
      have hskip : ∀ {staged},
          selectUnseen canonicalRow existing staged unseen rest = .ok result →
          row.idText ∈ eventIds unseen ∨ (existing.lookup row.idText).isSome = true →
          Selected existing unseen (row :: rest) result := by
        intro staged hrest hseen
        have hsel := ih hrest
        refine ⟨?_, hsel.nodup, hsel.absent, hsel.kept, ?_⟩
        · intro r hr
          exact (hsel.mem r hr).imp_right (List.mem_cons_of_mem row)
        · intro id hid
          rcases List.mem_cons.mp hid with rfl | hid
          · exact hseen.imp_left (hsel.kept _)
          · exact hsel.complete id hid
      unfold selectUnseen at h
      dsimp only at h
      split at h
      · cases h
      · split at h
        · rename_i hchosen
          exact hskip h (Or.inl (by simpa [eventIds] using hchosen))
        · rename_i hnew
          split at h
          · rename_i prior hprior
            split at h
            · cases h
            · exact hskip h (Or.inr (by simp [hprior]))
          · rename_i habsent
            have hsel := ih h
            have hfresh : row.idText ∉ eventIds unseen := by simpa [eventIds] using hnew
            refine ⟨?_, ?_, ?_, ?_, ?_⟩
            · intro r hr
              rcases hsel.mem r hr with hbefore | hrest
              · rcases List.mem_append.mp hbefore with hbefore | hrow
                · exact Or.inl hbefore
                · rw [List.mem_singleton.mp hrow]
                  exact Or.inr List.mem_cons_self
              · exact Or.inr (List.mem_cons_of_mem row hrest)
            · intro hnodup
              apply hsel.nodup
              rw [eventIds_append, List.nodup_append]
              refine ⟨hnodup, by simp [eventIds], ?_⟩
              intro a ha b hb
              rw [List.mem_singleton.mp (by simpa [eventIds] using hb : b ∈ [row.idText])]
              rintro rfl
              exact hfresh ha
            · intro id hid
              rcases hsel.absent id hid with hbefore | hnone
              · rw [eventIds_append] at hbefore
                rcases List.mem_append.mp hbefore with hbefore | hrow
                · exact Or.inl hbefore
                · have heq : id = row.idText := by simpa [eventIds] using hrow
                  exact Or.inr (by simp [heq, habsent])
              · exact Or.inr hnone
            · intro id hid
              exact hsel.kept id (by simp [hid])
            · intro id hid
              rcases List.mem_cons.mp hid with rfl | hid
              · exact Or.inl (hsel.kept _ (by simp [eventIds]))
              · exact hsel.complete id hid

/-- The unseen rows are staged rows with distinct ids that the target lacks, and
together with the target they hold every staged id. -/
structure UnseenSpec (staging target unseen : List OfflineRow) : Prop where
  staged : ∀ row ∈ unseen, row ∈ staging
  nodup : (eventIds unseen).Nodup
  absent : ∀ id ∈ eventIds unseen, id ∉ eventIds target
  complete : ∀ id ∈ eventIds staging, id ∈ eventIds target ∨ id ∈ eventIds unseen

theorem unseenRows_spec {staging target unseen : List OfflineRow}
    (h : unseenRows canonicalRow staging target = .ok unseen) :
    UnseenSpec staging target unseen := by
  unfold unseenRows at h
  split at h
  · cases h
  · rename_i existing hexisting
    have hids : ∀ id, (existing.lookup id).isSome = true ↔ id ∈ eventIds target := by
      intro id
      rw [existingById_ids hexisting]
      simp
    have hsel := selectUnseen_selected h
    refine ⟨?_, hsel.nodup (by simp), ?_, ?_⟩
    · intro row hrow
      exact (hsel.mem row hrow).resolve_left (by simp)
    · intro id hid htarget
      have hnone := (hsel.absent id hid).resolve_left (by simp)
      rw [(hids id).mpr htarget] at hnone
      cases hnone
    · intro id hid
      rw [← hids id]
      exact (hsel.complete id hid).symm

end FeatureStore
