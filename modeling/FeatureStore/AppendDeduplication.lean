import FeatureStore.OfflineAppend
import FeatureStore.StagedRows
import Mathlib.Data.List.Induction

/-!
# Deduplication of offline appends

`_unseen_rows` raises exactly where two rows of an event id differ, and otherwise selects the
first staged row of each id that the target lacks. Attempts of `_offline_append` therefore
append each id once, wherever they are interrupted. Ids are compared by their texts, so a missing
id counts as the id "None".
-/

namespace FeatureStore

section Canonical

/-- `isoformat(timespec="microseconds")` of a naive timestamp. -/
def wallMicroseconds (wall : Instant) : String :=
  String.ofList (FixedWidth.render (dateTemplate 'T' ++ [⟨['.'], 6⟩]) (civilOf wall).fields)

mutual

/-- `normalize` of `_canonical_row`. -/
def Value.normalizeTimes : Value → Value
  | .timestamp t =>
      .str (if t.utcOffset = none then wallMicroseconds t.wall else isoMicroseconds t.asUtc)
  | .list items => .list (itemsNormalizeTimes items)
  | .dict members => .dict (membersNormalizeTimes members)
  | value => value

def itemsNormalizeTimes : List Value → List Value
  | [] => []
  | value :: rest => value.normalizeTimes :: itemsNormalizeTimes rest

def membersNormalizeTimes : List (String × Value) → List (String × Value)
  | [] => []
  | (key, value) :: rest => (key, value.normalizeTimes) :: membersNormalizeTimes rest

end

/-- `JobExecutor._canonical_row`. -/
def canonicalRow (row : OfflineRow) : String :=
  (Value.dict row.record).normalizeTimes.canonicalText

end Canonical

variable (text : OfflineRow → String)

/-- No two of the rows have an event id in common and different texts. -/
def Consistent (rows : List OfflineRow) : Prop :=
  ∀ row ∈ rows, ∀ other ∈ rows, row.idText = other.idText → text row = text other

/-- The first staged row of each event id that the target lacks, in staging order. -/
def firstUnseen (staging target : List OfflineRow) : List OfflineRow :=
  (staging.zipIdx.filter fun item =>
    decide (item.1.idText ∉ eventIds target) &&
      decide (item.1.idText ∉ eventIds (staging.take item.2))).map (·.1)

/-- A mapping of event ids to the texts of the first rows that have them. -/
def Texts (mapping : TextMap) (rows : List OfflineRow) : Prop :=
  ∀ id, mapping.lookup id = (rows.find? fun row => decide (row.idText = id)).map text

section Selection

variable {text} {mapping existing staged : TextMap} {rows before target : List OfflineRow}
  {row : OfflineRow}

theorem firstUnseen_concat (before target : List OfflineRow) (row : OfflineRow) :
    firstUnseen (before ++ [row]) target = firstUnseen before target ++
      if row.idText ∉ eventIds target ∧ row.idText ∉ eventIds before then [row] else [] := by
  have htake : ∀ item ∈ before.zipIdx, (before ++ [row]).take item.2 = before.take item.2 := by
    intro item hitem
    have hlt := (List.mem_zipIdx' hitem).1
    rw [List.take_append_of_le_length hlt.le]
  have hold : (before.zipIdx.filter fun item =>
      decide (item.1.idText ∉ eventIds target) &&
        decide (item.1.idText ∉ eventIds ((before ++ [row]).take item.2))) =
      before.zipIdx.filter fun item =>
        decide (item.1.idText ∉ eventIds target) &&
          decide (item.1.idText ∉ eventIds (before.take item.2)) := by
    apply List.filter_congr
    intro item hitem
    rw [htake item hitem]
  rw [firstUnseen, List.zipIdx_append, List.filter_append, hold, List.map_append, ← firstUnseen]
  apply congrArg (firstUnseen before target ++ ·)
  by_cases hnew : row.idText ∉ eventIds target ∧ row.idText ∉ eventIds before
  · simp [hnew]
  · rw [if_neg hnew]
    simpa using hnew

theorem mem_eventIds_firstUnseen {id : String} : id ∈ eventIds (firstUnseen rows target) ↔
    id ∈ eventIds rows ∧ id ∉ eventIds target := by
  induction rows using List.reverseRecOn with
  | nil => simp [firstUnseen]
  | append_singleton before row ih =>
      rw [firstUnseen_concat, eventIds_append, List.mem_append, ih, eventIds_append,
        List.mem_append]
      by_cases hnew : row.idText ∉ eventIds target ∧ row.idText ∉ eventIds before
      · rw [if_pos hnew]
        constructor
        · rintro (h | h)
          · exact ⟨Or.inl h.1, h.2⟩
          · have hid : id = row.idText := by simpa [eventIds] using h
            exact ⟨Or.inr h, hid ▸ hnew.1⟩
        · rintro ⟨h | h, htarget⟩
          · exact Or.inl ⟨h, htarget⟩
          · exact Or.inr h
      · rw [if_neg hnew]
        constructor
        · rintro (h | h)
          · exact ⟨Or.inl h.1, h.2⟩
          · cases h
        · rintro ⟨h | h, htarget⟩
          · exact Or.inl ⟨h, htarget⟩
          · have hid : id = row.idText := by simpa [eventIds] using h
            subst hid
            refine Or.inl ⟨?_, htarget⟩
            by_contra hbefore
            exact hnew ⟨htarget, hbefore⟩

theorem consistent_concat : Consistent text (before ++ [row]) ↔
    Consistent text before ∧
      ∀ other ∈ before, other.idText = row.idText → text other = text row := by
  constructor
  · intro h
    constructor
    · exact fun a ha b hb => h a (List.mem_append_left _ ha) b (List.mem_append_left _ hb)
    · exact fun other hother => h other (List.mem_append_left _ hother) row (by simp)
  · rintro ⟨hbefore, hrow⟩ a ha b hb hid
    rcases List.mem_append.mp ha with ha | ha
    · rcases List.mem_append.mp hb with hb | hb
      · exact hbefore a ha b hb hid
      · rw [List.mem_singleton.mp hb] at hid ⊢
        exact hrow a ha hid
    · rw [List.mem_singleton.mp ha] at hid ⊢
      rcases List.mem_append.mp hb with hb | hb
      · exact (hrow b hb hid.symm).symm
      · rw [List.mem_singleton.mp hb]

/-- The text under an event id is that of every row that has it. -/
theorem Texts.lookup (h : Texts text mapping rows) (hrows : Consistent text rows)
    {id value : String} (hlookup : mapping.lookup id = some value) : id ∈ eventIds rows ∧
      ∀ row ∈ rows, row.idText = id → text row = value := by
  rw [h id, Option.map_eq_some_iff] at hlookup
  obtain ⟨first, hfirst, rfl⟩ := hlookup
  have hmem := List.mem_of_find?_eq_some hfirst
  have hid : first.idText = id := by simpa using List.find?_some hfirst
  refine ⟨hid ▸ idText_mem_eventIds hmem, fun row hrow hrowId => ?_⟩
  exact hrows row hrow first hmem (hrowId.trans hid.symm)

theorem Texts.lookup_none (h : Texts text mapping rows) {id : String}
    (hlookup : mapping.lookup id = none) : id ∉ eventIds rows := by
  rw [h id, Option.map_eq_none_iff, List.find?_eq_none] at hlookup
  rintro hid
  obtain ⟨row, hrow, rfl⟩ := List.mem_map.mp hid
  exact absurd (hlookup row hrow) (by simp)

theorem Texts.concat_found (h : Texts text mapping before) {prior : String}
    (hprior : mapping.lookup row.idText = some prior) : Texts text mapping (before ++ [row]) := by
  intro id
  rw [h id, List.find?_append]
  by_cases hid : row.idText = id
  · rw [h, hid] at hprior
    obtain ⟨first, hfirst, -⟩ := Option.map_eq_some_iff.mp hprior
    rw [hfirst, Option.some_or]
  · simp [hid]

theorem Texts.concat_new (h : Texts text mapping before)
    (hnone : mapping.lookup row.idText = none) :
    Texts text (mapping ++ [(row.idText, text row)]) (before ++ [row]) := by
  intro id
  rw [List.lookup_append, h id, List.find?_append]
  by_cases hid : row.idText = id
  · subst hid
    have hfirst := h row.idText
    rw [hnone] at hfirst
    rw [Option.map_eq_none_iff.mp hfirst.symm]
    simp
  · have hne : (id == row.idText) = false := beq_eq_false_iff_ne.mpr (Ne.symm hid)
    simp [hid, List.lookup_cons, hne]

/-- The next row has the text of the earlier rows of its id exactly if the rows stay consistent. -/
theorem Texts.setDefault (h : Texts text mapping before) (hbefore : Consistent text before)
    (row : OfflineRow) :
    Texts text (FeatureStore.setDefault mapping row.idText (text row)).1 (before ++ [row]) ∧
      ((FeatureStore.setDefault mapping row.idText (text row)).2 = text row ↔
        Consistent text (before ++ [row])) := by
  rw [consistent_concat]
  unfold FeatureStore.setDefault
  cases hlookup : mapping.lookup row.idText with
  | none =>
      have hnew := h.lookup_none hlookup
      refine ⟨h.concat_new hlookup, iff_of_true rfl ⟨hbefore, fun other hother hid => ?_⟩⟩
      exact absurd (hid ▸ idText_mem_eventIds hother) hnew
  | some prior =>
      obtain ⟨hmem, hsame⟩ := h.lookup hbefore hlookup
      refine ⟨h.concat_found hlookup, ?_⟩
      constructor
      · intro hprior
        exact ⟨hbefore, fun other hother hid => (hsame other hother hid).trans hprior⟩
      · rintro ⟨-, hrow⟩
        obtain ⟨other, hother, hid⟩ := List.mem_map.mp hmem
        exact (hsame other hother hid).symm.trans (hrow other hother hid)

theorem not_consistent_append (h : ¬Consistent text before) :
    ¬Consistent text (before ++ rows) :=
  fun hall => h fun a ha b hb =>
    hall a (List.mem_append_left _ ha) b (List.mem_append_left _ hb)

/-- The loop over the target raises exactly if its rows are inconsistent. -/
theorem existingById_spec (rows : List OfflineRow) (h : Texts text mapping before)
    (hbefore : Consistent text before) :
    (∃ result, existingById text mapping rows = .ok result ∧ Texts text result (before ++ rows) ∧
        Consistent text (before ++ rows)) ∨
      (∃ exc, existingById text mapping rows = .error exc) ∧ ¬Consistent text (before ++ rows) := by
  induction rows generalizing mapping before with
  | nil =>
      rw [List.append_nil]
      exact Or.inl ⟨mapping, rfl, h, hbefore⟩
  | cons row rest ih =>
      obtain ⟨htexts, hsame⟩ := h.setDefault hbefore row
      rw [existingById, List.append_cons]
      dsimp only
      split
      · rename_i hne
        exact Or.inr ⟨⟨_, rfl⟩, not_consistent_append fun hall => hne (hsame.mpr hall)⟩
      · rename_i heq
        exact ih htexts (hsame.mp (not_not.mp heq))

/-- Every staged row agrees with the target rows of its event id. -/
def Agrees (text : OfflineRow → String) (staging target : List OfflineRow) : Prop :=
  ∀ row ∈ staging, ∀ other ∈ target, row.idText = other.idText → text row = text other

theorem agrees_concat : Agrees text (before ++ [row]) target ↔ Agrees text before target ∧
    ∀ other ∈ target, row.idText = other.idText → text row = text other := by
  simp only [Agrees, List.forall_mem_append, List.forall_mem_singleton]

theorem firstUnseen_seen (h : row.idText ∈ eventIds before ∨ row.idText ∈ eventIds target) :
    firstUnseen (before ++ [row]) target = firstUnseen before target := by
  rw [firstUnseen_concat, if_neg, List.append_nil]
  rintro ⟨htarget, hbefore⟩
  exact h.elim hbefore htarget

/-- The loop over the staging table raises exactly if its rows are inconsistent or disagree with
the target, and otherwise selects the first rows of the unseen ids. -/
theorem selectUnseen_spec (rows : List OfflineRow) (hexisting : Texts text existing target)
    (htarget : Consistent text target) (hstaged : Texts text staged before)
    (hbefore : Consistent text before) (hagrees : Agrees text before target) :
    (selectUnseen text existing staged (firstUnseen before target) rows =
          .ok (firstUnseen (before ++ rows) target) ∧
        Consistent text (before ++ rows) ∧ Agrees text (before ++ rows) target) ∨
      (∃ exc, selectUnseen text existing staged (firstUnseen before target) rows = .error exc) ∧
        ¬(Consistent text (before ++ rows) ∧ Agrees text (before ++ rows) target) := by
  induction rows generalizing staged before with
  | nil =>
      rw [List.append_nil]
      exact Or.inl ⟨rfl, hbefore, hagrees⟩
  | cons row rest ih =>
      obtain ⟨htexts, hsame⟩ := hstaged.setDefault hbefore row
      rw [selectUnseen, List.append_cons before]
      dsimp only
      split
      · rename_i hne
        refine Or.inr ⟨⟨_, rfl⟩, fun hall => ?_⟩
        exact not_consistent_append (fun hrows => hne (hsame.mpr hrows)) hall.1
      · rename_i heq
        have hrows := hsame.mp (not_not.mp heq)
        split
        · rename_i hchosen
          obtain ⟨hseen, habsent⟩ := mem_eventIds_firstUnseen.mp
            (by simpa [eventIds] using hchosen :
              row.idText ∈ eventIds (firstUnseen before target))
          have hrest := ih htexts hrows (agrees_concat.mpr ⟨hagrees, fun other hother hid =>
            absurd (hid ▸ idText_mem_eventIds hother) habsent⟩)
          rwa [firstUnseen_seen (Or.inl hseen)] at hrest
        · rename_i hnew
          split
          · rename_i prior hprior
            obtain ⟨hmem, hprior⟩ := hexisting.lookup htarget hprior
            split
            · rename_i hne
              refine Or.inr ⟨⟨_, rfl⟩, fun hall => hne ?_⟩
              obtain ⟨other, hother, hid⟩ := List.mem_map.mp hmem
              rw [← hprior other hother hid]
              exact (hall.2 row (by simp) other hother hid.symm).symm
            · rename_i heq
              have hrest := ih htexts hrows (agrees_concat.mpr ⟨hagrees, fun other hother hid =>
                (not_not.mp heq).symm.trans (hprior other hother hid.symm).symm⟩)
              rwa [firstUnseen_seen (Or.inr hmem)] at hrest
          · rename_i hnone
            have habsent := hexisting.lookup_none hnone
            have hunseen : row.idText ∉ eventIds before := by
              intro hseen
              apply hnew
              simpa [eventIds] using mem_eventIds_firstUnseen.mpr ⟨hseen, habsent⟩
            have hrest := ih htexts hrows (agrees_concat.mpr ⟨hagrees, fun other hother hid =>
              absurd (hid ▸ idText_mem_eventIds hother) habsent⟩)
            rwa [firstUnseen_concat, if_pos ⟨habsent, hunseen⟩] at hrest

/-- Two rows, staged or in the target, have an event id in common and different texts. -/
def Conflicting (text : OfflineRow → String) (staging target : List OfflineRow) : Prop :=
  ∃ row ∈ staging ++ target, ∃ other ∈ staging ++ target,
    row.idText = other.idText ∧ text row ≠ text other

theorem not_conflicting_iff {staging : List OfflineRow} : ¬Conflicting text staging target ↔
    Consistent text staging ∧ Consistent text target ∧ Agrees text staging target := by
  constructor
  · intro h
    have hsame : ∀ row ∈ staging ++ target, ∀ other ∈ staging ++ target,
        row.idText = other.idText → text row = text other := by
      intro row hrow other hother hid
      by_contra hne
      exact h ⟨row, hrow, other, hother, hid, hne⟩
    refine ⟨fun row hrow other hother => ?_, fun row hrow other hother => ?_,
      fun row hrow other hother => ?_⟩
    · exact hsame row (List.mem_append_left _ hrow) other (List.mem_append_left _ hother)
    · exact hsame row (List.mem_append_right _ hrow) other (List.mem_append_right _ hother)
    · exact hsame row (List.mem_append_left _ hrow) other (List.mem_append_right _ hother)
  · rintro ⟨hstaging, htarget, hagrees⟩ ⟨row, hrow, other, hother, hid, hne⟩
    rcases List.mem_append.mp hrow with hrow | hrow
    · rcases List.mem_append.mp hother with hother | hother
      · exact hne (hstaging row hrow other hother hid)
      · exact hne (hagrees row hrow other hother hid)
    · rcases List.mem_append.mp hother with hother | hother
      · exact hne (hagrees other hother row hrow hid.symm).symm
      · exact hne (htarget row hrow other hother hid)

/-- `_unseen_rows` raises exactly on conflicting rows, and otherwise returns the first staged row
of each event id that the target lacks. -/
theorem unseenRows_cases (staging target : List OfflineRow) :
    (unseenRows text staging target = .ok (firstUnseen staging target) ∧
        ¬Conflicting text staging target) ∨
      (∃ exc, unseenRows text staging target = .error exc) ∧
        Conflicting text staging target := by
  have hnil : Texts text [] [] := fun _ => rfl
  have htrivial : Consistent text [] := fun _ h => absurd h List.not_mem_nil
  have hempty : Agrees text [] target := fun _ h => absurd h List.not_mem_nil
  rw [← @not_not (Conflicting text staging target), not_conflicting_iff, unseenRows]
  rcases existingById_spec target hnil htrivial with
    ⟨existing, hexisting, htexts, htarget⟩ | ⟨⟨exc, hexc⟩, htarget⟩
  · rw [List.nil_append] at htexts htarget
    rw [hexisting]
    rcases selectUnseen_spec staging htexts htarget hnil htrivial hempty with
      ⟨hselect, hstaging, hagrees⟩ | ⟨herror, hconflict⟩
    · exact Or.inl ⟨hselect, not_not.mpr ⟨hstaging, htarget, hagrees⟩⟩
    · exact Or.inr ⟨herror, fun h => hconflict ⟨h.1, h.2.2⟩⟩
  · rw [List.nil_append] at htarget
    rw [hexc]
    exact Or.inr ⟨⟨exc, rfl⟩, fun h => htarget h.2.1⟩

/-- `_unseen_rows` raises `ValueError`s only. -/
theorem selectUnseen_valueError {unseen : List OfflineRow} {exc : PyException}
    (h : selectUnseen text existing staged unseen rows = .error exc) : exc.cls = .value := by
  induction rows generalizing staged unseen with
  | nil => cases h
  | cons row rest ih =>
      rw [selectUnseen] at h
      dsimp only at h
      split at h
      · rw [← Except.error.inj h]
        rfl
      · split at h
        · exact ih h
        · split at h
          · split at h
            · rw [← Except.error.inj h]
              rfl
            · exact ih h
          · exact ih h

theorem existingById_valueError {exc : PyException}
    (h : existingById text mapping rows = .error exc) : exc.cls = .value := by
  induction rows generalizing mapping with
  | nil => cases h
  | cons row rest ih =>
      rw [existingById] at h
      dsimp only at h
      split at h
      · rw [← Except.error.inj h]
        rfl
      · exact ih h

theorem unseenRows_valueError {staging : List OfflineRow} {exc : PyException}
    (h : unseenRows text staging target = .error exc) : exc.cls = .value := by
  rw [unseenRows] at h
  split at h
  · rename_i herror
    rw [← Except.error.inj h]
    exact existingById_valueError herror
  · exact selectUnseen_valueError h

theorem mem_of_mem_firstUnseen (h : row ∈ firstUnseen rows target) : row ∈ rows := by
  obtain ⟨item, hitem, rfl⟩ := List.mem_map.mp h
  exact (List.mem_zipIdx (List.mem_of_mem_filter hitem)).2.2 ▸ List.getElem_mem _

theorem nodup_firstUnseen (rows target : List OfflineRow) :
    (eventIds (firstUnseen rows target)).Nodup := by
  induction rows using List.reverseRecOn with
  | nil => exact List.nodup_nil
  | append_singleton before row ih =>
      rw [firstUnseen_concat, eventIds_append, List.nodup_append]
      split
      · rename_i hnew
        refine ⟨ih, List.nodup_singleton _, fun id hid other hother heq => hnew.2 ?_⟩
        have hother : other = row.idText := by simpa [eventIds] using hother
        exact (mem_eventIds_firstUnseen.mp (hother ▸ heq ▸ hid)).1
      · refine ⟨ih, List.nodup_nil, fun _ _ _ hother => ?_⟩
        cases hother

/-- With the unseen rows in the target there is nothing unseen left, and no new conflict. -/
theorem unseenRows_appended {staging : List OfflineRow} (h : ¬Conflicting text staging target) :
    unseenRows text staging (target ++ firstUnseen staging target) = .ok [] := by
  have hmem : ∀ row ∈ staging ++ (target ++ firstUnseen staging target),
      row ∈ staging ++ target := by
    intro row hrow
    rw [List.mem_append, List.mem_append] at hrow
    rw [List.mem_append]
    rcases hrow with hrow | hrow | hrow
    · exact Or.inl hrow
    · exact Or.inr hrow
    · exact Or.inl (mem_of_mem_firstUnseen hrow)
  have hnone : firstUnseen staging (target ++ firstUnseen staging target) = [] := by
    have hids : eventIds (firstUnseen staging (target ++ firstUnseen staging target)) = [] := by
      rw [List.eq_nil_iff_forall_not_mem]
      intro id hid
      obtain ⟨hstaged, habsent⟩ := mem_eventIds_firstUnseen.mp hid
      rw [eventIds_append, List.mem_append, not_or] at habsent
      exact habsent.2 (mem_eventIds_firstUnseen.mpr ⟨hstaged, habsent.1⟩)
    exact List.map_eq_nil_iff.mp hids
  rcases @unseenRows_cases text staging (target ++ firstUnseen staging target) with
    ⟨hok, -⟩ | ⟨-, row, hrow, other, hother, hconflict⟩
  · rw [hok, hnone]
  · exact absurd ⟨row, hmem row hrow, other, hmem other hother, hconflict⟩ h

end Selection

/-- The statements of `_offline_append` itself. -/
def AppendStage.inAppend : AppendStage → Bool
  | .requiringOwnership | .loadingStaging | .loadingTarget _ | .confirmingOwnership _
  | .appending _ | .checkpointing _ => true
  | .starting | .finalizing _ | .cleaning | .failing _ | .ended => false

/-- A call of `_offline_append`: the database and the clock that its statements find, as many as
it takes before it is interrupted. -/
structure AppendCall where
  job : JobRecord
  token : Uuid
  statements : List (Database × Instant)

def appendStep (config : Config) (run : Warehouse × Attempt) (found : Database × Instant) :
    Warehouse × Attempt :=
  if run.2.stage.inAppend then
    run.2.advance config canonicalRow { run.1 with db := found.1 } found.2
  else run

def AppendCall.run (config : Config) (w : Warehouse) (call : AppendCall) : Warehouse × Attempt :=
  Execution.run (appendStep config) (w, ⟨call.job, call.token, .requiringOwnership⟩)
    call.statements

/-- The stores after calls that follow each other. -/
def runCalls (config : Config) (w : Warehouse) (calls : List AppendCall) : Warehouse :=
  Execution.run (fun w call => (call.run config w).1) w calls

/-- The staged rows of a job, its view, and the table of the view before any call. -/
structure AppendPlan where
  featureView : String
  stagingUri : StagingUri
  staged : List OfflineRow
  initial : Option DeltaTable

namespace AppendPlan

variable (p : AppendPlan)

def Conflicting : Prop :=
  FeatureStore.Conflicting canonicalRow p.staged (OfflineStore.load p.initial)

def unseen : List OfflineRow := firstUnseen p.staged (OfflineStore.load p.initial)

/-- The target holds the unseen rows, once. -/
def Written (table : Option DeltaTable) : Prop :=
  OfflineStore.load table = OfflineStore.load p.initial ++ p.unseen

/-- The staging table stands, and the target is as before or holds the unseen rows. -/
structure StoresSound (w : Warehouse) : Prop where
  staging : (w.staging p.stagingUri).map (·.rows) = some p.staged
  target : w.views p.featureView = p.initial ∨
    ¬p.Conflicting ∧ p.Written (w.views p.featureView)

/-- What an attempt knows at each stage about the target. -/
def StageSound (table : Option DeltaTable) : AppendStage → Prop
  | .loadingTarget staged => staged = p.staged
  | .confirmingOwnership comparison | .appending comparison =>
      comparison.unseen = p.unseen ∧ ¬p.Conflicting ∧ table = p.initial
  | .checkpointing _ | .finalizing _ => ¬p.Conflicting ∧ p.Written table
  | .failing _ => p.Conflicting
  | _ => True

structure CallSound (run : Warehouse × Attempt) : Prop where
  stores : p.StoresSound run.1
  payload : run.2.stage.inAppend = true →
    run.2.job.payload.offlineAppend? = some (p.featureView, p.stagingUri)
  stage : p.StageSound (run.1.views p.featureView) run.2.stage

section Calls

variable {p} {config : Config} {w : Warehouse} {a : Attempt}

theorem CallSound.goto {run : Warehouse × Attempt} (h : p.CallSound run) (db : Database)
    {stage : AppendStage} (hin : run.2.stage.inAppend = true)
    (hstage : p.StageSound (run.1.views p.featureView) stage) :
    p.CallSound ({ run.1 with db := db }, run.2.goto stage) where
  stores := ⟨h.stores.staging, h.stores.target⟩
  payload _ := h.payload hin
  stage := hstage

theorem StoresSound.conflicting (h : p.StoresSound w) {exc : PyException}
    (herror : unseenRows canonicalRow p.staged (OfflineStore.load (w.views p.featureView)) =
      .error exc) : p.Conflicting := by
  rcases h.target with hinitial | ⟨hconflict, hwritten⟩
  · rw [hinitial] at herror
    rcases @unseenRows_cases canonicalRow p.staged (OfflineStore.load p.initial) with
      ⟨hok, -⟩ | ⟨-, hconflict⟩
    · rw [hok] at herror
      cases herror
    · exact hconflict
  · rw [hwritten, unseen, unseenRows_appended hconflict] at herror
    cases herror

/-- What the comparison with the target selects. -/
theorem StoresSound.unseen (h : p.StoresSound w) {unseen : List OfflineRow}
    (hok : unseenRows canonicalRow p.staged (OfflineStore.load (w.views p.featureView)) =
      .ok unseen) : ¬p.Conflicting ∧ (w.views p.featureView = p.initial ∧ unseen = p.unseen ∨
        unseen = [] ∧ p.Written (w.views p.featureView)) := by
  rcases h.target with hinitial | ⟨hconflict, hwritten⟩
  · rw [hinitial] at hok
    rcases @unseenRows_cases canonicalRow p.staged (OfflineStore.load p.initial) with
      ⟨hselect, hconflict⟩ | ⟨⟨exc, herror⟩, -⟩
    · rw [hselect] at hok
      exact ⟨hconflict, Or.inl ⟨hinitial, (Except.ok.inj hok).symm⟩⟩
    · rw [herror] at hok
      cases hok
  · rw [hwritten, AppendPlan.unseen, unseenRows_appended hconflict] at hok
    exact ⟨hconflict, Or.inr ⟨(Except.ok.inj hok).symm, hwritten⟩⟩

/-- A statement of `_offline_append` keeps the stores sound. -/
theorem CallSound.step {run : Warehouse × Attempt} (h : p.CallSound run)
    (found : Database × Instant) : p.CallSound (appendStep config run found) := by
  obtain ⟨w, a⟩ := run
  rw [appendStep]
  split
  · rename_i hin
    have hpayload := h.payload hin
    have hstage := h.stage
    dsimp only at hin hpayload hstage ⊢
    unfold Attempt.advance
    cases hcase : a.stage with
    | requiringOwnership =>
        dsimp only
        split
        · exact h.goto found.1 hin trivial
        · exact h.goto found.1 hin trivial
    | loadingStaging =>
        obtain ⟨table, hfound, hrows⟩ := Option.map_eq_some_iff.mp h.stores.staging
        change w.staging p.stagingUri = some table at hfound
        simp only [hpayload]
        rw [hfound]
        exact h.goto found.1 hin hrows
    | loadingTarget staged =>
        rw [hcase] at hstage
        obtain rfl : staged = p.staged := hstage
        dsimp only
        simp only [hpayload]
        split
        · rename_i exc herror
          have hvalue := unseenRows_valueError herror
          have hclass : exc.cls ≠ .leaseLost := by
            rw [hvalue]
            decide
          rw [Attempt.handle, if_neg hclass]
          exact h.goto found.1 hin (h.stores.conflicting herror)
        · rename_i unseen hunseen
          obtain ⟨hconflict, ⟨hinitial, rfl⟩ | ⟨rfl, hwritten⟩⟩ := h.stores.unseen hunseen
          · split
            · rename_i hempty
              refine h.goto found.1 hin ⟨hconflict, ?_⟩
              change OfflineStore.load (w.views p.featureView) = _
              rw [hinitial, List.isEmpty_iff.mp hempty, List.append_nil]
            · exact h.goto found.1 hin ⟨rfl, hconflict, hinitial⟩
          · exact h.goto found.1 hin ⟨hconflict, hwritten⟩
    | confirmingOwnership comparison =>
        rw [hcase] at hstage
        dsimp only
        split
        · exact h.goto found.1 hin hstage
        · exact h.goto found.1 hin trivial
    | appending comparison =>
        rw [hcase] at hstage
        obtain ⟨hunseen, hconflict, htable⟩ := hstage
        have hwritten : p.Written (Function.update w.views p.featureView
            (some (OfflineStore.append (w.views p.featureView) comparison.unseen))
              p.featureView) := by
          rw [Function.update_self]
          change OfflineStore.load (w.views p.featureView) ++ comparison.unseen = _
          have hinitial : w.views p.featureView = p.initial := htable
          rw [hinitial, hunseen]
        simp only [hpayload]
        exact ⟨⟨h.stores.staging, Or.inr ⟨hconflict, hwritten⟩⟩, fun _ => hpayload, hconflict,
          hwritten⟩
    | checkpointing comparison =>
        rw [hcase] at hstage
        dsimp only
        split
        · rename_i db job hcommit
          refine ⟨⟨h.stores.staging, h.stores.target⟩, ?_, hstage⟩
          intro hended
          cases hended
        · rename_i db exc hcommit
          obtain ⟨rfl, hlost⟩ := commitCheckpoints_raised hcommit
          rw [Attempt.handle, if_pos hlost]
          exact h.goto found.1 hin trivial
    | _ =>
        rw [hcase] at hin
        cases hin
  · exact h

theorem CallSound.run (h : p.StoresSound w) {call : AppendCall}
    (hpayload : call.job.payload.offlineAppend? = some (p.featureView, p.stagingUri)) :
    p.CallSound (call.run config w) :=
  Execution.invariant (fun _ found h => h.step found) ⟨h, fun _ => hpayload, trivial⟩ _

/-- Calls that follow each other keep the stores sound, wherever each is interrupted. -/
theorem StoresSound.runCalls (h : p.StoresSound w) {calls : List AppendCall}
    (hpayload : ∀ call ∈ calls,
      call.job.payload.offlineAppend? = some (p.featureView, p.stagingUri)) :
    p.StoresSound (runCalls config w calls) := by
  induction calls generalizing w with
  | nil => exact h
  | cons call rest ih =>
      obtain ⟨hcall, hrest⟩ := List.forall_mem_cons.mp hpayload
      exact ih (CallSound.run h hcall).stores hrest

end Calls

/-- The staging table holds the staged rows, and nothing has been appended yet. -/
structure Ready (w : Warehouse) : Prop where
  staging : (w.staging p.stagingUri).map (·.rows) = some p.staged
  target : w.views p.featureView = p.initial

/-- `_unseen_rows` raises exactly on conflicting rows and otherwise returns the first staged row of
each id that the target lacks. So a call of `_offline_append`, after any calls cut anywhere,
leaves the target as it was if it rejects the rows, never raises if the rows do not
conflict, and on its return the target holds each unseen id once. -/
theorem offline_append_deduplicates (config : Config) (w : Warehouse) (hready : p.Ready w)
    (earlier : List AppendCall) (call : AppendCall)
    (hpayload : ∀ other ∈ call :: earlier,
      other.job.payload.offlineAppend? = some (p.featureView, p.stagingUri)) :
    (∀ staging target : List OfflineRow,
      ((∃ exc, unseenRows canonicalRow staging target = .error exc) ↔
        FeatureStore.Conflicting canonicalRow staging target) ∧
      (¬FeatureStore.Conflicting canonicalRow staging target →
        unseenRows canonicalRow staging target = .ok (firstUnseen staging target))) ∧
    (p.Conflicting →
      (call.run config (runCalls config w earlier)).1.views p.featureView = p.initial) ∧
    (¬p.Conflicting →
      ((call.run config (runCalls config w earlier)).1.views p.featureView = p.initial ∨
        p.Written ((call.run config (runCalls config w earlier)).1.views p.featureView)) ∧
      (∀ exc, (call.run config (runCalls config w earlier)).2.stage ≠ .failing exc) ∧
      ∀ comparison, (call.run config (runCalls config w earlier)).2.stage = .finalizing comparison →
        p.Written ((call.run config (runCalls config w earlier)).1.views p.featureView) ∧
        ∀ id ∈ eventIds p.staged, id ∉ eventIds (OfflineStore.load p.initial) →
          (eventIds (OfflineStore.load ((call.run config (runCalls config w earlier)).1.views
            p.featureView))).count id = 1) := by
  obtain ⟨hcall, hearlier⟩ := List.forall_mem_cons.mp hpayload
  have hstores : p.StoresSound w := ⟨hready.staging, Or.inl hready.target⟩
  have hsound : p.CallSound (call.run config (runCalls config w earlier)) :=
    CallSound.run (hstores.runCalls hearlier) hcall
  generalize call.run config (runCalls config w earlier) = run at hsound ⊢
  refine ⟨fun staging target => ?_, fun hconflict => ?_, fun hconflict => ⟨?_, ?_, ?_⟩⟩
  · rcases @unseenRows_cases canonicalRow staging target with ⟨hok, hnone⟩ | ⟨herror, hconflict⟩
    · refine ⟨iff_of_false ?_ hnone, fun _ => hok⟩
      rintro ⟨exc, herror⟩
      rw [hok] at herror
      cases herror
    · exact ⟨iff_of_true herror hconflict, fun hnone => absurd hconflict hnone⟩
  · exact hsound.stores.target.resolve_right fun h => h.1 hconflict
  · exact hsound.stores.target.imp_right (·.2)
  · intro exc hstage
    have hfailing := hsound.stage
    rw [hstage] at hfailing
    exact hconflict hfailing
  · intro comparison hstage
    have hwritten := hsound.stage
    rw [hstage] at hwritten
    refine ⟨hwritten.2, fun id hstaged habsent => ?_⟩
    rw [hwritten.2, eventIds_append, List.count_append, List.count_eq_zero_of_not_mem habsent,
      Nat.zero_add]
    exact List.count_eq_one_of_mem (nodup_firstUnseen _ _)
      (mem_eventIds_firstUnseen.mpr ⟨hstaged, habsent⟩)

end AppendPlan

/-- Two rows, staged or in the target, share an event id and differ in content. -/
def Contradicting (staging target : List OfflineRow) : Prop :=
  ∃ row ∈ staging ++ target, ∃ other ∈ staging ++ target,
    row.eventId = other.eventId ∧ canonicalRow row ≠ canonicalRow other

/-- The first staged row of each event id that the target lacks, in staging order; a missing id
is an id of its own. -/
def firstAbsent (staging target : List OfflineRow) : List OfflineRow :=
  (staging.zipIdx.filter fun item =>
    decide (item.1.eventId ∉ target.map (·.eventId)) &&
      decide (item.1.eventId ∉ (staging.take item.2).map (·.eventId))).map (·.1)

/-- `_unseen_rows` raises exactly on rows that share an event id and differ, and otherwise
returns the first staged row of each event id that the target lacks. -/
structure UnseenExact (staging target : List OfflineRow) : Prop where
  raises : (∃ exc, unseenRows canonicalRow staging target = .error exc) ↔
    Contradicting staging target
  selects : ¬Contradicting staging target →
    unseenRows canonicalRow staging target = .ok (firstAbsent staging target)

/-- Among the rows are one without an event id and one whose event id is the text "None". -/
def MissingMeetsNone (rows : List OfflineRow) : Prop :=
  (∃ row ∈ rows, row.eventId = none) ∧ ∃ row ∈ rows, row.eventId = some "None"

/-- A row of a table: its columns have distinct names, and its cells have JSON texts. -/
structure OfflineRow.IsTableRow (row : OfflineRow) : Prop where
  names : (row.items.map (·.1)).Nodup
  cells : (Value.dict row.record).normalizeTimes.isJson = true

section Identities

variable {staging target rows : List OfflineRow} {row other : OfflineRow}

theorem membersNormalizeTimes_eq (members : List (String × Value)) :
    membersNormalizeTimes members =
      members.map fun member => (member.1, member.2.normalizeTimes) := by
  induction members with
  | nil => rfl
  | cons member rest ih => rw [membersNormalizeTimes, ih, List.map_cons]

/-- The contents of two rows tell a missing event id from any other. -/
theorem canonicalRow_ne (hrow : row.IsTableRow) (hother : other.IsTableRow)
    (hmissing : row.eventId = none) {eventId : String} (hid : other.eventId = some eventId) :
    canonicalRow row ≠ canonicalRow other := by
  intro heq
  rw [canonicalRow, canonicalRow, canonicalText_eq_iff hrow.cells hother.cells,
    record_of_nodup hrow.names, record_of_nodup hother.names, Value.normalizeTimes,
    Value.normalizeTimes, Value.sortKeys, Value.sortKeys, sortMembers_eq, sortMembers_eq,
    membersNormalizeTimes_eq, membersNormalizeTimes_eq, List.map_map, List.map_map] at heq
  have hnull : ("event_id", Value.null) ∈ row.items := by
    rw [mem_items, hmissing]
    exact Or.inr (Or.inr (Or.inl rfl))
  have hfound : ("event_id", Value.null) ∈ other.items.map fun member =>
      (member.1, member.2.normalizeTimes.sortKeys) := by
    rw [← mem_sortByKey]
    exact Value.dict.inj heq ▸ mem_sortByKey.mpr (List.mem_map_of_mem hnull)
  obtain ⟨item, hitem, hsame⟩ := List.mem_map.mp hfound
  have hown : ("event_id", Value.str eventId) ∈ other.items := by
    rw [mem_items, hid]
    exact Or.inr (Or.inr (Or.inl rfl))
  have hitemId : item = ("event_id", Value.str eventId) :=
    List.inj_on_of_nodup_map hother.names hitem hown (Prod.mk.inj hsame).1
  rw [hitemId] at hsame
  cases (Prod.mk.inj hsame).2

/-- Texts tell event ids apart, unless a missing one meets "None". -/
theorem idText_eq_iff (h : ¬MissingMeetsNone rows) (hrow : row ∈ rows) (hother : other ∈ rows) :
    row.idText = other.idText ↔ row.eventId = other.eventId := by
  refine ⟨fun heq => ?_, fun heq => by rw [OfflineRow.idText, OfflineRow.idText, heq]⟩
  unfold OfflineRow.idText at heq
  cases hid : row.eventId with
  | none =>
      cases hotherId : other.eventId with
      | none => rfl
      | some eventId =>
          rw [hid, hotherId, Option.getD_none, Option.getD_some] at heq
          exact absurd ⟨⟨row, hrow, hid⟩, other, hother, heq ▸ hotherId⟩ h
  | some eventId =>
      cases hotherId : other.eventId with
      | none =>
          rw [hid, hotherId, Option.getD_none, Option.getD_some] at heq
          exact absurd ⟨⟨other, hother, hotherId⟩, row, hrow, heq ▸ hid⟩ h
      | some otherId =>
          rw [hid, hotherId, Option.getD_some, Option.getD_some] at heq
          rw [heq]

theorem mem_eventIds_iff (h : ¬MissingMeetsNone rows) (hrow : row ∈ rows)
    {others : List OfflineRow} (hothers : ∀ other ∈ others, other ∈ rows) :
    row.idText ∈ eventIds others ↔ row.eventId ∈ others.map (·.eventId) := by
  rw [eventIds, List.mem_map, List.mem_map]
  apply exists_congr
  intro other
  apply and_congr_right
  exact fun hother => idText_eq_iff h (hothers other hother) hrow

theorem count_eventIds (h : ¬MissingMeetsNone rows) (hrow : row ∈ rows)
    {others : List OfflineRow} (hothers : ∀ other ∈ others, other ∈ rows) :
    (eventIds others).count row.idText = (others.map (·.eventId)).count row.eventId := by
  rw [eventIds, List.count_eq_countP, List.count_eq_countP, List.countP_map, List.countP_map]
  apply List.countP_congr
  intro other hother
  rw [Function.comp_apply, Function.comp_apply, beq_iff_eq, beq_iff_eq]
  exact idText_eq_iff h (hothers other hother) hrow

theorem Contradicting.conflicting (h : Contradicting staging target) :
    Conflicting canonicalRow staging target := by
  obtain ⟨row, hrow, other, hother, hid, hne⟩ := h
  exact ⟨row, hrow, other, hother, by rw [OfflineRow.idText, OfflineRow.idText, hid], hne⟩

theorem conflicting_iff (h : ¬MissingMeetsNone (staging ++ target)) :
    Conflicting canonicalRow staging target ↔ Contradicting staging target := by
  refine ⟨?_, Contradicting.conflicting⟩
  rintro ⟨row, hrow, other, hother, hid, hne⟩
  exact ⟨row, hrow, other, hother, (idText_eq_iff h hrow hother).mp hid, hne⟩

theorem firstUnseen_eq (h : ¬MissingMeetsNone (staging ++ target)) :
    firstUnseen staging target = firstAbsent staging target := by
  rw [firstUnseen, firstAbsent]
  refine congrArg (List.map Prod.fst) (List.filter_congr fun item hitem => ?_)
  have hmem : item.1 ∈ staging := List.fst_mem_of_mem_zipIdx hitem
  have hrow : item.1 ∈ staging ++ target := List.mem_append_left _ hmem
  have htarget : item.1.idText ∈ eventIds target ↔ item.1.eventId ∈ target.map (·.eventId) :=
    mem_eventIds_iff h hrow fun other hother => List.mem_append_right _ hother
  have hbefore : item.1.idText ∈ eventIds (staging.take item.2) ↔
      item.1.eventId ∈ (staging.take item.2).map (·.eventId) :=
    mem_eventIds_iff h hrow fun other hother =>
      List.mem_append_left _ (List.mem_of_mem_take hother)
  simp only [htarget, hbefore]

/-- The rows of a missing id and of "None" conflict. -/
theorem MissingMeetsNone.conflicting (h : MissingMeetsNone (staging ++ target))
    (hrows : ∀ row ∈ staging ++ target, row.IsTableRow) :
    Conflicting canonicalRow staging target := by
  obtain ⟨⟨row, hrow, hmissing⟩, other, hother, hid⟩ := h
  refine ⟨row, hrow, other, hother, ?_,
    canonicalRow_ne (hrows row hrow) (hrows other hother) hmissing hid⟩
  rw [OfflineRow.idText, OfflineRow.idText, hmissing, hid, Option.getD_none, Option.getD_some]

/-- `_unseen_rows` goes by event ids unless a missing one meets "None" and no other rows
contradict each other. -/
theorem unseenExact_iff (hrows : ∀ row ∈ staging ++ target, row.IsTableRow) :
    UnseenExact staging target ↔
      Contradicting staging target ∨ ¬MissingMeetsNone (staging ++ target) := by
  have hcases := @unseenRows_cases canonicalRow staging target
  constructor
  · intro h
    by_contra hnot
    rw [not_or, not_not] at hnot
    rcases hcases with ⟨-, hnone⟩ | ⟨herror, -⟩
    · exact hnone (hnot.2.conflicting hrows)
    · exact hnot.1 (h.raises.mp herror)
  · rintro (hcontradicting | hapart)
    · have herror := hcases.resolve_left fun hok => hok.2 hcontradicting.conflicting
      exact ⟨iff_of_true herror.1 hcontradicting, fun hnone => absurd hcontradicting hnone⟩
    · rw [conflicting_iff hapart, firstUnseen_eq hapart] at hcases
      rcases hcases with ⟨hok, hnone⟩ | ⟨herror, hcontradicting⟩
      · refine ⟨iff_of_false ?_ hnone, fun _ => hok⟩
        rintro ⟨exc, herror⟩
        rw [hok] at herror
        cases herror
      · exact ⟨iff_of_true herror hcontradicting, fun hnone => absurd hcontradicting hnone⟩

end Identities

namespace AppendPlan

variable (p : AppendPlan)

/-- The rows of the plan share an event id and differ. -/
def Contradicting : Prop :=
  FeatureStore.Contradicting p.staged (OfflineStore.load p.initial)

/-- The target holds the first staged row of each event id that it lacked. -/
def Appended (table : Option DeltaTable) : Prop :=
  OfflineStore.load table =
    OfflineStore.load p.initial ++ firstAbsent p.staged (OfflineStore.load p.initial)

/-- The append goes by event ids: rows that `_unseen_rows` rejects leave the target as it was,
and rows that do not contradict each other are appended once for each id, without a failure. -/
structure Deduplicated (run : Warehouse × Attempt) : Prop where
  exact : UnseenExact p.staged (OfflineStore.load p.initial)
  rejected : (∃ exc, unseenRows canonicalRow p.staged (OfflineStore.load p.initial) =
    .error exc) → run.1.views p.featureView = p.initial
  kept : ¬p.Contradicting →
    run.1.views p.featureView = p.initial ∨ p.Appended (run.1.views p.featureView)
  succeeds : ¬p.Contradicting → ∀ exc, run.2.stage ≠ .failing exc
  once : ¬p.Contradicting → ∀ comparison, run.2.stage = .finalizing comparison →
    p.Appended (run.1.views p.featureView) ∧ ∀ row ∈ p.staged,
      row.eventId ∉ (OfflineStore.load p.initial).map (·.eventId) →
        ((OfflineStore.load (run.1.views p.featureView)).map (·.eventId)).count row.eventId = 1

/-- After any calls cut anywhere, a call of `_offline_append` deduplicates by event ids, unless
the staging table and the target hold a row without an event id and one with the id "None", and
no two rows that share an event id differ. -/
theorem offline_append_exact_iff (config : Config) (w : Warehouse) (hready : p.Ready w)
    (hrows : ∀ row ∈ p.staged ++ OfflineStore.load p.initial, row.IsTableRow)
    (earlier : List AppendCall) (call : AppendCall)
    (hpayload : ∀ other ∈ call :: earlier,
      other.job.payload.offlineAppend? = some (p.featureView, p.stagingUri)) :
    p.Deduplicated (call.run config (runCalls config w earlier)) ↔
      p.Contradicting ∨ ¬MissingMeetsNone (p.staged ++ OfflineStore.load p.initial) := by
  obtain ⟨hunseen, hrejected, hwritten⟩ :=
    p.offline_append_deduplicates config w hready earlier call hpayload
  refine ⟨fun h => (unseenExact_iff hrows).mp h.exact, fun hcondition => ?_⟩
  have hapart : ¬p.Contradicting →
      ¬MissingMeetsNone (p.staged ++ OfflineStore.load p.initial) := hcondition.resolve_left
  have hfree : ¬p.Contradicting → ¬p.Conflicting := fun hnone hconflict =>
    hnone ((conflicting_iff (hapart hnone)).mp hconflict)
  have happended : ∀ table, ¬p.Contradicting → p.Written table → p.Appended table := by
    intro table hnone htable
    rw [Appended, ← firstUnseen_eq (hapart hnone)]
    exact htable
  constructor
  · exact (unseenExact_iff hrows).mpr hcondition
  · exact fun herror => hrejected ((hunseen _ _).1.mp herror)
  · exact fun hnone => (hwritten (hfree hnone)).1.imp_right (happended _ hnone)
  · exact fun hnone => (hwritten (hfree hnone)).2.1
  · intro hnone comparison hstage
    obtain ⟨htable, honce⟩ := (hwritten (hfree hnone)).2.2 comparison hstage
    refine ⟨happended _ hnone htable, fun row hrow habsent => ?_⟩
    have hmem : row ∈ p.staged ++ OfflineStore.load p.initial := List.mem_append_left _ hrow
    have hlacks : row.idText ∉ eventIds (OfflineStore.load p.initial) := by
      rwa [mem_eventIds_iff (hapart hnone) hmem fun other hother => List.mem_append_right _ hother]
    have hcount := honce row.idText (idText_mem_eventIds hrow) hlacks
    have hstored : ∀ other ∈ OfflineStore.load ((call.run config
        (runCalls config w earlier)).1.views p.featureView),
          other ∈ p.staged ++ OfflineStore.load p.initial := by
      intro other hother
      rw [htable, List.mem_append] at hother
      exact List.mem_append.mpr (hother.symm.imp_left mem_of_mem_firstUnseen)
    rw [← hcount, count_eventIds (hapart hnone) hmem hstored]

end AppendPlan

section Sample

/-- A batch row without an event id. -/
def unnamedRow : OfflineRow := ⟨[("driver", .str "d1")], 0, none, [], 0, dateOf_zero⟩

/-- A staged event whose id is the text of a missing one. -/
def namedNoneRow : OfflineRow := ⟨[("driver", .str "d2")], 0, some "None", [], 0, dateOf_zero⟩

/-- A missing event id and the id "None" conflict, although no two rows share an id. -/
theorem missing_id_conflicts :
    ¬∀ staging target : List OfflineRow,
      (∃ exc, unseenRows canonicalRow staging target = .error exc) →
      ∃ row ∈ staging ++ target, ∃ other ∈ staging ++ target,
        row.eventId = other.eventId ∧ canonicalRow row ≠ canonicalRow other := by
  intro h
  have hraises : (unseenRows canonicalRow [namedNoneRow] [unnamedRow]).isOk = false := by
    decide +kernel
  have herror : ∃ exc, unseenRows canonicalRow [namedNoneRow] [unnamedRow] = .error exc := by
    cases hcase : unseenRows canonicalRow [namedNoneRow] [unnamedRow] with
    | error exc => exact ⟨exc, rfl⟩
    | ok unseen =>
        rw [hcase] at hraises
        cases hraises
  obtain ⟨row, hrow, other, hother, hid, hne⟩ := h [namedNoneRow] [unnamedRow] herror
  simp only [List.cons_append, List.nil_append, List.mem_cons, List.not_mem_nil, or_false]
    at hrow hother
  rcases hrow with rfl | rfl
  · rcases hother with rfl | rfl
    · exact hne rfl
    · cases hid
  · rcases hother with rfl | rfl
    · cases hid
    · exact hne rfl

/-- An offline append of one event, claimed by a worker. -/
def claimedAppend : Database :=
  (claimPass {} (stageBatch {} .empty "driver_stats@1.0.0" ⟨"driver_stats@1.0.0", 9⟩ [] 1 0).1
    "worker" 0 [] 11).1

def tripPlan : AppendPlan :=
  ⟨"driver_stats@1.0.0", ⟨"driver_stats@1.0.0", 9⟩,
    [⟨[("driver", .str "d1")], 0, some "trip", [], 0, dateOf_zero⟩], none⟩

def tripWarehouse : Warehouse where
  db := claimedAppend
  staging _ := some ⟨tripPlan.staged, 0⟩
  views _ := none

/-- A call of so many statements under the lease. -/
def tripCall (job : JobRecord) (count : Nat) : AppendCall :=
  ⟨job, 11, List.replicate count (claimedAppend, 0)⟩

/-- The first call dies after its write; the second returns, and the event is there once. -/
theorem trip_appended_once : ∃ job, claimedAppend.jobs.find? 1 = some job ∧
    tripPlan.Appended (((tripCall job 6).run defaultConfig
      (runCalls defaultConfig tripWarehouse [tripCall job 5])).1.views "driver_stats@1.0.0") := by
  have hstored : (claimedAppend.jobs.find? 1).any (fun job =>
      decide (job.payload.offlineAppend? = some (tripPlan.featureView, tripPlan.stagingUri)) &&
        match ((tripCall job 6).run defaultConfig
          (runCalls defaultConfig tripWarehouse [tripCall job 5])).2.stage with
        | .finalizing _ => true
        | _ => false) = true := by
    decide +kernel
  rw [Option.any_eq_true] at hstored
  obtain ⟨job, hjob, hfacts⟩ := hstored
  rw [Bool.and_eq_true, decide_eq_true_eq] at hfacts
  obtain ⟨hpayload, hfinal⟩ := hfacts
  have hrows : ∀ row ∈ tripPlan.staged ++ OfflineStore.load tripPlan.initial, row.IsTableRow := by
    intro row hrow
    rw [List.mem_singleton.mp hrow]
    exact ⟨by decide, by decide⟩
  have hcontradicting : ¬tripPlan.Contradicting := by
    rintro ⟨row, hrow, other, hother, -, hne⟩
    exact hne (by rw [List.mem_singleton.mp hrow, List.mem_singleton.mp hother])
  have hapart :
      ¬MissingMeetsNone (tripPlan.staged ++ OfflineStore.load tripPlan.initial) := by
    rintro ⟨⟨row, hrow, hmissing⟩, -⟩
    rw [List.mem_singleton.mp hrow] at hmissing
    cases hmissing
  have hdeduplicated := (tripPlan.offline_append_exact_iff defaultConfig tripWarehouse ⟨rfl, rfl⟩
    hrows [tripCall job 5] (tripCall job 6) (by
      intro other hother
      rcases List.mem_cons.mp hother with rfl | hother
      · exact hpayload
      · rw [List.mem_singleton.mp hother]
        exact hpayload)).mpr (Or.inr hapart)
  refine ⟨job, hjob, ?_⟩
  cases hstage : ((tripCall job 6).run defaultConfig
      (runCalls defaultConfig tripWarehouse [tripCall job 5])).2.stage with
  | finalizing comparison => exact (hdeduplicated.once hcontradicting comparison hstage).1
  | _ =>
      rw [hstage] at hfinal
      cases hfinal

end Sample

end FeatureStore
