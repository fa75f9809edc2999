import FeatureStore.ObservationAnswers
import Mathlib.Data.List.Pairwise

/-!
# The columns of an answer

`resolve_features` refuses two feature columns of one name. The status columns that both
retrieval paths add for each view take no part in this check.
-/

namespace FeatureStore

namespace RegistryStore

/-- The columns that a view adds to an answer. -/
def viewColumns (store : RegistryStore) (group : String × List String) : List String :=
  match store.featureView group.1 with
  | .ok view => outputNames view.name group.2
  | .error _ => []

/-- The columns of the answer to a resolved request. -/
def outputColumns (store : RegistryStore) (resolved : List String) : List String :=
  (requestedGroups resolved).flatMap store.viewColumns

/-- The feature column of a reference. -/
def featureColumn (store : RegistryStore) (ref : String × String) : String :=
  match store.featureView ref.1 with
  | .ok view => s!"{view.name}__{ref.2}"
  | .error _ => ""

end RegistryStore

/-- A feature of a view that is named like the status of another view, or of its own. -/
def ShadowsStatus (viewName featureName statusView : String) : Prop :=
  (statusView = viewName ∧ featureName = "status") ∨
    (statusView = viewName ++ "_" ∧ featureName = "_status") ∨
    ∃ middle, statusView = viewName ++ "__" ++ middle ∧ featureName = middle ++ "__status"

/-- The request has one version of each view, and no feature that shadows a status. -/
structure RegistryStore.StatusesApart (store : RegistryStore) (resolved : List String) :
    Prop where
  oneVersion : ∀ a ∈ requestedGroups resolved, ∀ b ∈ requestedGroups resolved, ∀ view other,
    store.featureView a.1 = .ok view → store.featureView b.1 = .ok other →
      view.name = other.name → a.1 = b.1
  unshadowed : ∀ a ∈ requestedGroups resolved, ∀ featureName ∈ a.2,
    ∀ b ∈ requestedGroups resolved, ∀ view other, store.featureView a.1 = .ok view →
      store.featureView b.1 = .ok other → ¬ShadowsStatus view.name featureName other.name

section Names

/-- A feature column is a status column in these cases alone. -/
theorem featureName_eq_statusName {viewName featureName statusView : String} :
    s!"{viewName}__{featureName}" = statusName statusView ↔
      ShadowsStatus viewName featureName statusView := by
  constructor
  · intro h
    have hchars : viewName.toList ++ '_' :: '_' :: featureName.toList =
        statusView.toList ++ ['_', '_', 's', 't', 'a', 't', 'u', 's'] := by
      simpa [statusName, String.ext_iff, toString] using h
    rw [List.append_eq_append_iff] at hchars
    rcases hchars with ⟨rest, hview, hrest⟩ | ⟨rest, hview, hrest⟩
    · match rest, hview, hrest with
      | [], hview, hrest =>
          left
          constructor
          · simpa [String.ext_iff] using hview
          · simpa [String.ext_iff] using hrest
      | [first], hview, hrest =>
          right
          left
          simp only [List.cons_append, List.nil_append, List.cons.injEq] at hrest
          obtain ⟨rfl, -, hfeature⟩ := hrest
          constructor
          · simpa [String.ext_iff] using hview
          · simpa [String.ext_iff] using hfeature
      | first :: second :: middle, hview, hrest =>
          right
          right
          simp only [List.cons_append, List.cons.injEq] at hrest
          obtain ⟨rfl, rfl, hfeature⟩ := hrest
          refine ⟨String.ofList middle, ?_, ?_⟩
          · simpa [String.ext_iff] using hview
          · simpa [String.ext_iff] using hfeature
    · match rest, hview, hrest with
      | [], hview, hrest =>
          left
          constructor
          · simpa [String.ext_iff] using hview.symm
          · simpa [String.ext_iff] using hrest.symm
      | [first], _, hrest => simp at hrest
      | first :: second :: middle, _, hrest =>
          -- The letters of "status" hold no underscore.
          simp only [List.cons_append, List.cons.injEq] at hrest
          have hmem : '_' ∈ middle ++ '_' :: '_' :: featureName.toList :=
            List.mem_append_right _ List.mem_cons_self
          rw [← hrest.2.2] at hmem
          exact absurd hmem (by decide)
  · rintro (⟨rfl, rfl⟩ | ⟨rfl, rfl⟩ | ⟨middle, rfl, rfl⟩)
    · simp [statusName, String.ext_iff, toString]
    · simp [statusName, String.ext_iff, toString]
    · simp [statusName, String.ext_iff, toString]

end Names

section Resolved

variable {store : RegistryStore} {group : String × List String} {column : String}

theorem mem_viewColumns : column ∈ store.viewColumns group ↔
    ∃ view, store.featureView group.1 = .ok view ∧
      (column = statusName view.name ∨
        ∃ featureName ∈ group.2, column = store.featureColumn (group.1, featureName)) := by
  unfold RegistryStore.viewColumns RegistryStore.featureColumn
  cases hview : store.featureView group.1 with
  | error exc => simp
  | ok view => simp [outputNames, hview, eq_comm]

/-- What the loop of `resolve_features` has checked when it ends. -/
theorem checkRefs_spec {resolved outputNames : List String}
    (h : store.checkRefs outputNames resolved = .ok ()) :
    ∃ refs, resolved.mapM splitLastColon = .ok refs ∧
      (∀ ref ∈ refs, ∃ view, store.featureView ref.1 = .ok view) ∧
      (refs.map store.featureColumn).Nodup ∧
      ∀ ref ∈ refs, store.featureColumn ref ∉ outputNames := by
  induction resolved generalizing outputNames with
  | nil => exact ⟨[], rfl, nofun, List.nodup_nil, nofun⟩
  | cons text rest ih =>
      rw [RegistryStore.checkRefs] at h
      obtain ⟨ref, hsplit, h⟩ := ok_of_bind h
      obtain ⟨view, hview, h⟩ := ok_of_bind h
      dsimp only at h
      have hcolumn : store.featureColumn ref = s!"{view.name}__{ref.2}" := by
        rw [RegistryStore.featureColumn, hview]
      rw [← hcolumn] at h
      split at h
      · split at h
        · cases h
        · rename_i hnew
          obtain ⟨refs, hrefs, hviews, hnodup, hfresh⟩ := ih h
          refine ⟨ref :: refs, ?_, ?_, ?_, ?_⟩
          · rw [List.mapM_cons, hsplit, hrefs]
            rfl
          · exact List.forall_mem_cons.mpr ⟨⟨view, hview⟩, hviews⟩
          · rw [List.map_cons, List.nodup_cons]
            refine ⟨fun hmem => ?_, hnodup⟩
            obtain ⟨other, hother, hsame⟩ := List.mem_map.mp hmem
            exact hfresh other hother (hsame ▸ List.mem_cons_self)
          · rw [List.forall_mem_cons]
            refine ⟨fun hmem => hnew (List.contains_iff_mem.mpr hmem), fun other hother hmem => ?_⟩
            exact hfresh other hother (List.mem_cons_of_mem _ hmem)
      · cases h

theorem resolveFeatures_checked {features resolved : List String} {featureService : Option String}
    (h : store.resolveFeatures features featureService = .ok resolved) :
    store.checkRefs [] resolved = .ok () := by
  unfold RegistryStore.resolveFeatures at h
  obtain ⟨refs, -, h⟩ := ok_of_bind h
  split at h
  · cases h
  · obtain ⟨_, hchecked, hresult⟩ := ok_of_bind h
    obtain rfl := Except.ok.inj hresult
    exact hchecked

variable {refs : List (String × String)}

theorem mem_group_iff (h : group ∈ refs.foldl groupRef []) {featureName : String} :
    featureName ∈ group.2 ↔ (group.1, featureName) ∈ refs := by
  rw [(mem_grouped.mp h).2, List.mem_map]
  constructor
  · rintro ⟨ref, href, rfl⟩
    rw [List.mem_filter, decide_eq_true_eq] at href
    rw [← href.2]
    exact href.1
  · intro hmem
    exact ⟨_, List.mem_filter.mpr ⟨hmem, decide_eq_true rfl⟩, rfl⟩

/-- The feature columns of one view are told apart. -/
theorem group_columns_nodup (hnodup : (refs.map store.featureColumn).Nodup)
    (h : group ∈ refs.foldl groupRef []) :
    (group.2.map fun featureName => store.featureColumn (group.1, featureName)).Nodup := by
  have hnames : group.2.map (fun featureName => store.featureColumn (group.1, featureName)) =
      (refs.filter fun ref => ref.1 = group.1).map store.featureColumn := by
    rw [(mem_grouped.mp h).2, List.map_map]
    apply List.map_congr_left
    intro ref href
    rw [← of_decide_eq_true (List.mem_filter.mp href).2]
    rfl
  rw [hnames]
  exact hnodup.sublist (List.filter_sublist.map _)

/-- An accepted request has distinct output columns if and only if its status columns are
apart. -/
theorem outputColumns_nodup_iff (store : RegistryStore) (features : List String)
    (featureService : Option String) (resolved : List String)
    (h : store.resolveFeatures features featureService = .ok resolved) :
    (store.outputColumns resolved).Nodup ↔ store.StatusesApart resolved := by
  obtain ⟨refs, hrefs, hviews, hnodup, -⟩ := checkRefs_spec (resolveFeatures_checked h)
  have hgroups : requestedGroups resolved = refs.foldl groupRef [] := by
    rw [requestedGroups, hrefs]
  rw [RegistryStore.outputColumns, List.nodup_flatMap]
  constructor
  · rintro ⟨hown, hothers⟩
    have hsymm : Std.Symm (Function.onFun List.Disjoint store.viewColumns) :=
      ⟨fun _ _ h => h.symm⟩
    have hdisjoint : ∀ a ∈ requestedGroups resolved, ∀ b ∈ requestedGroups resolved, a ≠ b →
        (store.viewColumns a).Disjoint (store.viewColumns b) :=
      fun a ha b hb hne => hothers.forall ha hb hne
    constructor
    · intro a ha b hb view other hview hother hname
      by_contra hne
      apply hdisjoint a ha b hb (fun heq => hne (congrArg Prod.fst heq))
        (mem_viewColumns.mpr ⟨view, hview, Or.inl rfl⟩)
      exact mem_viewColumns.mpr ⟨other, hother, Or.inl (congrArg statusName hname)⟩
    · intro a ha featureName hfeature b hb view other hview hother hshadows
      rw [← featureName_eq_statusName] at hshadows
      have hcolumn : store.featureColumn (a.1, featureName) = statusName other.name := by
        rw [RegistryStore.featureColumn, hview]
        exact hshadows
      by_cases hsame : a = b
      · subst hsame
        obtain rfl := Except.ok.inj (hview.symm.trans hother)
        have hlist := hown a ha
        simp only [RegistryStore.viewColumns, hview, outputNames, List.nodup_cons] at hlist
        exact hlist.1 (List.mem_map.mpr ⟨featureName, hfeature, hshadows⟩)
      · apply hdisjoint a ha b hb hsame
          (mem_viewColumns.mpr ⟨view, hview, Or.inr ⟨featureName, hfeature, rfl⟩⟩)
        exact mem_viewColumns.mpr ⟨other, hother, Or.inl hcolumn⟩
  · intro hapart
    have hkeys := nodup_grouped refs
    rw [← hgroups] at hkeys
    constructor
    · intro group hgroup
      have hcolumns := group_columns_nodup hnodup (hgroups ▸ hgroup)
      unfold RegistryStore.viewColumns
      unfold RegistryStore.featureColumn at hcolumns
      cases hview : store.featureView group.1 with
      | error exc => exact List.nodup_nil
      | ok view =>
          simp only [hview] at hcolumns
          refine List.nodup_cons.mpr ⟨fun hmem => ?_, hcolumns⟩
          obtain ⟨featureName, hfeature, hsame⟩ := List.mem_map.mp hmem
          exact hapart.unshadowed group hgroup featureName hfeature group hgroup view view hview
            hview (featureName_eq_statusName.mp hsame)
    · apply (List.Nodup.of_map _ hkeys).pairwise_of_forall_ne
      intro a ha b hb hne column hfirst hsecond
      obtain ⟨view, hview, hfirst⟩ := mem_viewColumns.mp hfirst
      obtain ⟨other, hother, hsecond⟩ := mem_viewColumns.mp hsecond
      have hrefs : a.1 ≠ b.1 := fun heq => hne (List.inj_on_of_nodup_map hkeys ha hb heq)
      rcases hfirst with rfl | ⟨featureName, hfeature, rfl⟩
      · rcases hsecond with hname | ⟨otherName, hotherName, hname⟩
        · apply hrefs (hapart.oneVersion a ha b hb view other hview hother _)
          simpa [statusName, String.ext_iff, toString] using hname
        · rw [RegistryStore.featureColumn, hother] at hname
          exact hapart.unshadowed b hb otherName hotherName a ha other view hother hview
            (featureName_eq_statusName.mp hname.symm)
      · rcases hsecond with hname | ⟨otherName, hotherName, hname⟩
        · rw [RegistryStore.featureColumn, hview] at hname
          exact hapart.unshadowed a ha featureName hfeature b hb view other hview hother
            (featureName_eq_statusName.mp hname)
        · rw [mem_group_iff (hgroups ▸ ha)] at hfeature
          rw [mem_group_iff (hgroups ▸ hb)] at hotherName
          have hsame := List.inj_on_of_nodup_map hnodup hfeature hotherName hname
          exact hrefs (Prod.mk.inj hsame).1

end Resolved

section Paths

variable {codec : OnlineCodec} {store : RegistryStore} {redis : RedisStore} {values row : Dict}

/-- The historical path adds these columns. -/
theorem retriever_columns (retriever : Retriever) :
    retriever.columns = retriever.store.viewColumns := rfl

theorem mem_keys_setItem {row : Dict} {key name : String} {value : Value} :
    name ∈ (Dictionaries.setItem row key value).map (·.1) ↔ name ∈ row.map (·.1) ∨ name = key := by
  rw [← Dictionaries.lookup_isSome_iff, Dictionaries.lookup_setItem,
    ← Dictionaries.lookup_isSome_iff]
  split
  · rename_i heq
    simp [heq]
  · rename_i hne
    simp [hne]

/-- The online path sets these keys of a row. -/
theorem readView_columns {result : Dict} {group : String × List String}
    (h : readView codec store redis values row group = .ok result) (name : String) :
    name ∈ result.map (·.1) ↔ name ∈ row.map (·.1) ∨ name ∈ store.viewColumns group := by
  have hfold : ∀ (view : Manifest.FeatureView) (stored : List (String × String))
      (names : List String) (row : Dict),
      (names.foldlM (fun row name => do
        let value ← loadField (stored.lookup name)
        return Dictionaries.setItem row s!"{view.name}__{name}" value) row) = .ok result →
        (name ∈ result.map (·.1) ↔ name ∈ row.map (·.1) ∨
          name ∈ names.map fun name => s!"{view.name}__{name}") := by
    intro view stored names
    induction names with
    | nil =>
        intro row hrow
        cases hrow
        simp
    | cons featureName rest ih =>
        intro row hrow
        rw [List.foldlM_cons] at hrow
        obtain ⟨next, hnext, hrest⟩ := ok_of_bind hrow
        obtain ⟨value, -, hset⟩ := ok_of_bind hnext
        obtain rfl := Except.ok.inj hset
        rw [ih _ hrest, mem_keys_setItem, List.map_cons, List.mem_cons, or_assoc]
  unfold readView at h
  obtain ⟨view, hview, h⟩ := ok_of_bind h
  obtain ⟨entity, -, h⟩ := ok_of_bind h
  dsimp only at h
  split at h
  · cases h
  · obtain ⟨entityValues, -, h⟩ := ok_of_bind h
    rw [hfold _ _ _ _ h, mem_keys_setItem, RegistryStore.viewColumns, hview, or_assoc]
    simp [outputNames, statusName]

/-- A row of the online path has the given values and the columns of all its views. -/
theorem readViews_columns {result : Dict} {groups : List (String × List String)}
    (h : groups.foldlM (readView codec store redis values) row = .ok result) (name : String) :
    name ∈ result.map (·.1) ↔
      name ∈ row.map (·.1) ∨ name ∈ groups.flatMap store.viewColumns := by
  induction groups generalizing row with
  | nil =>
      cases h
      simp
  | cons group rest ih =>
      rw [List.foldlM_cons] at h
      obtain ⟨next, hnext, hrest⟩ := ok_of_bind h
      rw [ih hrest, readView_columns hnext, List.flatMap_cons, List.mem_append, or_assoc]

end Paths

section Sample

/-- A view with a feature named like its status column. -/
def orderView : Manifest.FeatureView :=
  ⟨"orders", "1.0.0", "account", [⟨"status", .string, "", none⟩], "orders",
    "SELECT * FROM source", none, none, "", none, by decide⟩

def orderStore : RegistryStore :=
  ⟨⟨[⟨.entity accountEntity, "", 0⟩, ⟨.featureView orderView, "", 0⟩], by decide, by decide⟩,
    .empty⟩

/-- The amount of an account is told apart from its status. -/
theorem amount_apart : accountStore.StatusesApart ["account_stats@1.0.0:amount"] :=
  (outputColumns_nodup_iff accountStore ["account_stats@1.0.0:amount"] none
    ["account_stats@1.0.0:amount"] rfl).mp (by decide +kernel)

/-- The status of an order has the name of the status of its view. -/
theorem order_status_collides :
    ¬∀ (store : RegistryStore) (features : List String) (featureService : Option String)
      (resolved : List String), store.resolveFeatures features featureService = .ok resolved →
        (store.outputColumns resolved).Nodup := by
  intro h
  have hcolumns := h orderStore ["orders@1.0.0:status"] none ["orders@1.0.0:status"] rfl
  exact absurd hcolumns (by decide +kernel)

end Sample

end FeatureStore
