import FeatureStore.DateTimeText
import FeatureStore.Library.PrefixCode
import Mathlib.Data.List.Sort

/-!
# JSON texts

`json.dumps` with compact separators and `default=str`, and its canonical form
with sorted keys. Values are read back from their texts, so a canonical text
determines its value up to the order of object keys.
-/

namespace FeatureStore

open PrefixCode

/-- The characters with a letter of their own, and their letters. -/
def shortEscapes : List (Char × Char) :=
  [('"', '"'), ('\\', '\\'), ('\n', 'n'), ('\r', 'r'), ('\t', 't'), ('\x0c', 'f'),
    ('\x08', 'b')]

/-- `"\\u{0:04x}".format(unit)`. -/
def unitEscape (unit : Nat) : List Char :=
  ['\\', 'u', Nat.digitChar (unit / 4096 % 16), Nat.digitChar (unit / 256 % 16),
    Nat.digitChar (unit / 16 % 16), Nat.digitChar (unit % 16)]

/-- The escape of a character outside the printable ASCII ones, by UTF-16 units. -/
def unicodeEscape (c : Char) : List Char :=
  if c.toNat < 65536 then unitEscape c.toNat
  else unitEscape (55296 + (c.toNat - 65536) / 1024) ++
    unitEscape (56320 + (c.toNat - 65536) % 1024)

def escapeChar (c : Char) : List Char :=
  match shortEscapes.lookup c with
  | some letter => ['\\', letter]
  | none => if ' ' ≤ c ∧ c ≤ '~' then [c] else unicodeEscape c

/-- A string literal. -/
def quoted (s : String) : List Char :=
  '"' :: (s.toList.flatMap escapeChar ++ ['"'])

mutual

/-- `json.dumps(value, separators=(",", ":"), default=str)`. -/
def Value.jsonChars : Value → List Char
  | .null => ['n', 'u', 'l', 'l']
  | .bool true => ['t', 'r', 'u', 'e']
  | .bool false => ['f', 'a', 'l', 's', 'e']
  | .int n => (if n < 0 then ['-'] else []) ++ Nat.toDigits 10 n.natAbs
  | .float repr => repr.toList
  | .str s => quoted s
  | .timestamp t => quoted t.str
  | .list items => '[' :: (itemsChars items ++ [']'])
  | .dict items => '{' :: (membersChars items ++ ['}'])

def itemsChars : List Value → List Char
  | [] => []
  | [value] => value.jsonChars
  | value :: other :: rest => value.jsonChars ++ ',' :: itemsChars (other :: rest)

def membersChars : List (String × Value) → List Char
  | [] => []
  | [(key, value)] => quoted key ++ ':' :: value.jsonChars
  | (key, value) :: other :: rest =>
      quoted key ++ ':' :: (value.jsonChars ++ ',' :: membersChars (other :: rest))

end

/-- `sorted(items)` of a dictionary, whose keys are distinct. -/
def sortByKey {β : Type} (items : List (String × β)) : List (String × β) :=
  items.insertionSort fun a b => a.1 ≤ b.1

mutual

/-- A value whose objects list their keys in order. -/
def Value.sortKeys : Value → Value
  | .list items => .list (sortItems items)
  | .dict items => .dict (sortByKey (sortMembers items))
  | value => value

def sortItems : List Value → List Value
  | [] => []
  | value :: rest => value.sortKeys :: sortItems rest

def sortMembers : List (String × Value) → List (String × Value)
  | [] => []
  | (key, value) :: rest => (key, value.sortKeys) :: sortMembers rest

end

def Value.jsonText (value : Value) : String := String.ofList value.jsonChars

/-- `json.dumps(value, sort_keys=True, separators=(",", ":"), default=str)`. -/
def Value.canonicalText (value : Value) : String := value.sortKeys.jsonText

theorem mem_shortEscapes {c letter : Char} (h : shortEscapes.lookup c = some letter) :
    (c, letter) ∈ shortEscapes :=
  List.lookup_eq_some_iff.mp h |>.elim fun before ⟨after, hsplit, _⟩ => by simp [hsplit]

theorem shortEscapes_inj : ∀ a ∈ shortEscapes, ∀ b ∈ shortEscapes, a.2 = b.2 → a.1 = b.1 := by
  decide

theorem shortEscapes_ne_u : ∀ a ∈ shortEscapes, a.2 ≠ 'u' := by
  decide

theorem digitChar_inj {a b : Nat} (ha : a < 16) (hb : b < 16)
    (h : Nat.digitChar a = Nat.digitChar b) : a = b := by
  have hall : ∀ a b : Fin 16, Nat.digitChar a = Nat.digitChar b → a = b := by decide
  exact congrArg Fin.val (hall ⟨a, ha⟩ ⟨b, hb⟩ h)

/-- Four hexadecimal digits determine a UTF-16 unit. -/
theorem unitEscape_append {a b : Nat} (ha : a < 65536) (hb : b < 65536) {r r' : List Char}
    (h : unitEscape a ++ r = unitEscape b ++ r') : a = b ∧ r = r' := by
  simp only [unitEscape, List.cons_append, List.nil_append, List.cons.injEq, true_and] at h
  obtain ⟨h3, h2, h1, h0, hrest⟩ := h
  have e3 := digitChar_inj (Nat.mod_lt _ (by decide)) (Nat.mod_lt _ (by decide)) h3
  have e2 := digitChar_inj (Nat.mod_lt _ (by decide)) (Nat.mod_lt _ (by decide)) h2
  have e1 := digitChar_inj (Nat.mod_lt _ (by decide)) (Nat.mod_lt _ (by decide)) h1
  have e0 := digitChar_inj (Nat.mod_lt _ (by decide)) (Nat.mod_lt _ (by decide)) h0
  exact ⟨by omega, hrest⟩

/-- A character is no surrogate. -/
theorem Char.toNat_ranges (c : Char) : c.toNat < 55296 ∨ 57343 < c.toNat ∧ c.toNat < 1114112 :=
  c.valid

theorem unicodeEscape_append {a b : Char} {r r' : List Char}
    (h : unicodeEscape a ++ r = unicodeEscape b ++ r') : a = b ∧ r = r' := by
  have ha := Char.toNat_ranges a
  have hb := Char.toNat_ranges b
  unfold unicodeEscape at h
  by_cases hab : a.toNat < 65536
  · by_cases hbb : b.toNat < 65536
    · rw [if_pos hab, if_pos hbb] at h
      obtain ⟨hunit, hrest⟩ := unitEscape_append hab hbb h
      exact ⟨Char.toNat_inj.mp hunit, hrest⟩
    · rw [if_pos hab, if_neg hbb, List.append_assoc] at h
      have hunit := (unitEscape_append hab (by omega) h).1
      omega
  · by_cases hbb : b.toNat < 65536
    · rw [if_neg hab, if_pos hbb, List.append_assoc] at h
      have hunit := (unitEscape_append (by omega) hbb h).1
      omega
    · rw [if_neg hab, if_neg hbb, List.append_assoc, List.append_assoc] at h
      obtain ⟨hhigh, hrest⟩ := unitEscape_append (by omega) (by omega) h
      obtain ⟨hlow, hrest⟩ := unitEscape_append (by omega) (by omega) hrest
      exact ⟨Char.toNat_inj.mp (by omega), hrest⟩

theorem unicodeEscape_eq (c : Char) : ∃ rest, unicodeEscape c = '\\' :: 'u' :: rest := by
  unfold unicodeEscape
  split <;> exact ⟨_, rfl⟩

/-- The three kinds of escapes: a letter, the character itself, its UTF-16 units. -/
theorem escapeChar_cases (c : Char) :
    (∃ letter, (c, letter) ∈ shortEscapes ∧ escapeChar c = ['\\', letter]) ∨
      (c ≠ '\\' ∧ c ≠ '"' ∧ escapeChar c = [c]) ∨ escapeChar c = unicodeEscape c := by
  unfold escapeChar
  cases h : shortEscapes.lookup c with
  | some letter => exact Or.inl ⟨letter, mem_shortEscapes h, rfl⟩
  | none =>
      have hbackslash : c ≠ '\\' := by
        rintro rfl
        cases h
      have hquote : c ≠ '"' := by
        rintro rfl
        cases h
      dsimp only
      split
      · exact Or.inr (Or.inl ⟨hbackslash, hquote, rfl⟩)
      · exact Or.inr (Or.inr rfl)

theorem escapeChar_head (c : Char) : ∃ first rest, escapeChar c = first :: rest ∧ first ≠ '"' := by
  rcases escapeChar_cases c with ⟨letter, -, h⟩ | ⟨-, hquote, h⟩ | h
  · exact ⟨_, _, h, by decide⟩
  · exact ⟨_, _, h, hquote⟩
  · obtain ⟨rest, hrest⟩ := unicodeEscape_eq c
    exact ⟨_, _, h.trans hrest, by decide⟩

theorem escapeChar_readsBack (a : Char) :
    ReadsBack escapeChar (fun _ => True) (fun _ => True) a := by
  intro b _ r r' _ _ h
  obtain ⟨restA, hrestA⟩ := unicodeEscape_eq a
  obtain ⟨restB, hrestB⟩ := unicodeEscape_eq b
  rcases escapeChar_cases a with ⟨la, hla, ha⟩ | ⟨hslash, -, ha⟩ | ha
  · rcases escapeChar_cases b with ⟨lb, hlb, hb⟩ | ⟨hslash, -, hb⟩ | hb
    · simp only [ha, hb, List.cons_append, List.nil_append, List.cons.injEq, true_and] at h
      exact ⟨shortEscapes_inj _ hla _ hlb h.1, h.2⟩
    · simp only [ha, hb, List.cons_append, List.nil_append, List.cons.injEq] at h
      exact absurd h.1.symm hslash
    · simp only [ha, hb, hrestB, List.cons_append, List.nil_append, List.cons.injEq] at h
      exact absurd h.2.1 (shortEscapes_ne_u _ hla)
  · rcases escapeChar_cases b with ⟨lb, -, hb⟩ | ⟨-, -, hb⟩ | hb
    · simp only [ha, hb, List.cons_append, List.nil_append, List.cons.injEq] at h
      exact absurd h.1 hslash
    · simp only [ha, hb, List.cons_append, List.nil_append, List.cons.injEq] at h
      exact h
    · simp only [ha, hb, hrestB, List.cons_append, List.nil_append, List.cons.injEq] at h
      exact absurd h.1 hslash
  · rcases escapeChar_cases b with ⟨lb, hlb, hb⟩ | ⟨hslash, -, hb⟩ | hb
    · simp only [ha, hb, hrestA, List.cons_append, List.nil_append, List.cons.injEq] at h
      exact absurd h.2.1.symm (shortEscapes_ne_u _ hlb)
    · simp only [ha, hb, hrestA, List.cons_append, List.nil_append, List.cons.injEq] at h
      exact absurd h.1.symm hslash
    · rw [ha, hb] at h
      exact unicodeEscape_append h

/-- A string literal determines the string and what follows it. -/
theorem quoted_append {s t : String} {r r' : List Char} (h : quoted s ++ r = quoted t ++ r') :
    s = t ∧ r = r' := by
  simp only [quoted, List.cons_append, List.append_assoc, List.nil_append, List.cons.injEq,
    true_and] at h
  obtain ⟨hchars, hrest⟩ := flatMap_terminated escapeChar_readsBack escapeChar_head h
  exact ⟨String.toList_inj.mp hchars, hrest⟩

/-- The characters of `null`, booleans and numbers. -/
def isTokenChar (c : Char) : Bool := c.isAlphanum || c == '-' || c == '+' || c == '.'

/-- The texts of `float.__repr__`: tokens that no other JSON scalar has. -/
def isFloatToken (token : String) : Bool :=
  token.toList.all isTokenChar && token.toList.any (fun c => !c.isDigit && c != '-') &&
    token != "null" && token != "true" && token != "false"

mutual

/-- The JSON values: no timestamps, and the floats of `float.__repr__`. -/
def Value.isJson : Value → Bool
  | .timestamp _ => false
  | .float token => isFloatToken token
  | .list items => itemsAreJson items
  | .dict items => membersAreJson items
  | _ => true

def itemsAreJson : List Value → Bool
  | [] => true
  | value :: rest => value.isJson && itemsAreJson rest

def membersAreJson : List (String × Value) → Bool
  | [] => true
  | (_, value) :: rest => value.isJson && membersAreJson rest

end

theorem itemsAreJson_iff {items : List Value} :
    itemsAreJson items = true ↔ ∀ value ∈ items, value.isJson = true := by
  induction items with
  | nil => simp [itemsAreJson]
  | cons value rest ih => simp [itemsAreJson, ih]

theorem membersAreJson_iff {members : List (String × Value)} :
    membersAreJson members = true ↔ ∀ member ∈ members, member.2.isJson = true := by
  induction members with
  | nil => simp [membersAreJson]
  | cons member rest ih => simp [membersAreJson, ih]

/-- The text of a member of an object. -/
def memberChars (member : String × Value) : List Char :=
  quoted member.1 ++ ':' :: member.2.jsonChars

theorem itemsChars_eq (items : List Value) :
    itemsChars items = separated ',' Value.jsonChars items := by
  induction items with
  | nil => simp [itemsChars, separated]
  | cons value rest ih =>
      cases rest with
      | nil => simp [itemsChars, separated]
      | cons other rest => rw [itemsChars, separated, ih]

theorem membersChars_eq (members : List (String × Value)) :
    membersChars members = separated ',' memberChars members := by
  induction members with
  | nil => simp [membersChars, separated]
  | cons member rest ih =>
      cases rest with
      | nil => simp [membersChars, separated, memberChars]
      | cons other rest =>
          rw [membersChars, separated, ih, memberChars]
          simp

mutual

/-- The text of a value when `quote` writes the string literals. -/
def Value.charsWith (quote : String → List Char) : Value → List Char
  | .str s => quote s
  | .timestamp t => quote t.str
  | .list items => '[' :: (itemsWith quote items ++ [']'])
  | .dict items => '{' :: (membersWith quote items ++ ['}'])
  | value => value.jsonChars

def itemsWith (quote : String → List Char) : List Value → List Char
  | [] => []
  | [value] => value.charsWith quote
  | value :: other :: rest => value.charsWith quote ++ ',' :: itemsWith quote (other :: rest)

def membersWith (quote : String → List Char) : List (String × Value) → List Char
  | [] => []
  | [(key, value)] => quote key ++ ':' :: value.charsWith quote
  | (key, value) :: other :: rest =>
      quote key ++ ':' :: (value.charsWith quote ++ ',' :: membersWith quote (other :: rest))

end

/-- The text of a member of an object. -/
def memberWith (quote : String → List Char) (member : String × Value) : List Char :=
  quote member.1 ++ ':' :: member.2.charsWith quote

theorem itemsWith_eq (quote : String → List Char) (items : List Value) :
    itemsWith quote items = separated ',' (Value.charsWith quote) items := by
  induction items with
  | nil => simp [itemsWith, separated]
  | cons value rest ih =>
      cases rest with
      | nil => simp [itemsWith, separated]
      | cons other rest => rw [itemsWith, separated, ih]

theorem membersWith_eq (quote : String → List Char) (members : List (String × Value)) :
    membersWith quote members = separated ',' (memberWith quote) members := by
  induction members with
  | nil => simp [membersWith, separated]
  | cons member rest ih =>
      cases rest with
      | nil => simp [membersWith, separated, memberWith]
      | cons other rest =>
          rw [membersWith, separated, ih, memberWith]
          simp

/-- The characters of integers. -/
def isIntChar (c : Char) : Bool := c.isDigit || c == '-'

theorem intChars (n : Int) : (Value.int n).jsonChars.all isIntChar = true := by
  rw [List.all_eq_true]
  intro c hc
  rw [Value.jsonChars, List.mem_append] at hc
  rcases hc with hsign | hdigit
  · split at hsign
    · rw [List.mem_singleton.mp hsign]
      rfl
    · cases hsign
  · simp [isIntChar, Nat.isDigit_of_mem_toDigits (by decide) (by decide) hdigit]

def readInt : List Char → Int
  | '-' :: digits => -(Nat.ofDigitChars 10 digits 0 : Nat)
  | digits => (Nat.ofDigitChars 10 digits 0 : Nat)

/-- The value of a token. -/
def readToken (token : List Char) : Value :=
  if token = ['n', 'u', 'l', 'l'] then .null
  else if token = ['t', 'r', 'u', 'e'] then .bool true
  else if token = ['f', 'a', 'l', 's', 'e'] then .bool false
  else if token.all isIntChar then .int (readInt token)
  else .float (String.ofList token)

/-- The JSON values that are written as one token. -/
def Value.isToken : Value → Bool
  | .null | .bool _ | .int _ | .float _ => true
  | _ => false

theorem tokenChars {value : Value} (hjson : value.isJson = true) (htoken : value.isToken = true) :
    ∀ c ∈ value.jsonChars, isTokenChar c = true := by
  cases value with
  | null => exact List.all_eq_true.mp rfl
  | bool b =>
      cases b with
      | false => exact List.all_eq_true.mp rfl
      | true => exact List.all_eq_true.mp rfl
  | int n =>
      intro c hc
      have hint := List.all_eq_true.mp (intChars n) c hc
      simp only [isIntChar, Bool.or_eq_true] at hint
      simp only [isTokenChar, Char.isAlphanum, Bool.or_eq_true]
      exact hint.elim (fun h => by simp [h]) fun h => by simp [h]
  | float token =>
      intro c hc
      simp only [Value.isJson, isFloatToken, Bool.and_eq_true, List.all_eq_true] at hjson
      exact hjson.1.1.1.1 c hc
  | str _ => cases htoken
  | timestamp _ => cases htoken
  | list _ => cases htoken
  | dict _ => cases htoken

theorem readInt_jsonChars (n : Int) : readInt (Value.int n).jsonChars = n := by
  rw [Value.jsonChars]
  by_cases hn : n < 0
  · rw [if_pos hn, List.cons_append, List.nil_append, readInt, Nat.ofDigitChars_ten_toDigits]
    omega
  · have hsign : ∀ digits : List Char, Nat.toDigits 10 n.natAbs ≠ '-' :: digits := by
      intro digits hdigits
      have hmem : '-' ∈ Nat.toDigits 10 n.natAbs := by simp [hdigits]
      exact absurd (Nat.isDigit_of_mem_toDigits (by decide) (by decide) hmem) (by decide)
    rw [if_neg hn, List.nil_append, readInt, Nat.ofDigitChars_ten_toDigits]
    · omega
    · exact hsign

theorem readToken_int (n : Int) : readToken (Value.int n).jsonChars = .int n := by
  have hint := intChars n
  have hother : ∀ word : List Char, word.all isIntChar = false →
      (Value.int n).jsonChars ≠ word := by
    intro word hword h
    rw [h, hword] at hint
    cases hint
  rw [readToken, if_neg (hother _ (by decide)), if_neg (hother _ (by decide)),
    if_neg (hother _ (by decide)), if_pos hint, readInt_jsonChars]

theorem readToken_jsonChars {value : Value} (hjson : value.isJson = true)
    (htoken : value.isToken = true) : readToken value.jsonChars = value := by
  cases value with
  | null => rfl
  | bool b => cases b <;> rfl
  | int n => exact readToken_int n
  | float token =>
      simp only [Value.isJson, isFloatToken, Bool.and_eq_true, List.any_eq_true,
        Bool.not_eq_true', bne_iff_ne] at hjson
      obtain ⟨⟨⟨⟨-, c, hc, hdigit, hsign⟩, hnull⟩, htrue⟩, hfalse⟩ := hjson
      have hother : ∀ word : List Char, token ≠ String.ofList word → token.toList ≠ word := by
        intro word hne h
        exact hne (by rw [← h, String.ofList_toList])
      have hint : ¬token.toList.all isIntChar = true := by
        intro hall
        have := List.all_eq_true.mp hall c hc
        simp [isIntChar, hdigit, hsign] at this
      rw [Value.jsonChars, readToken, if_neg (hother _ hnull), if_neg (hother _ htrue),
        if_neg (hother _ hfalse), if_neg hint, String.ofList_toList]
  | str _ => cases htoken
  | timestamp _ => cases htoken
  | list _ => cases htoken
  | dict _ => cases htoken

theorem token_ne_nil {value : Value} (hjson : value.isJson = true)
    (htoken : value.isToken = true) : value.jsonChars ≠ [] := by
  cases value with
  | null => exact List.cons_ne_nil _ _
  | bool b => cases b <;> exact List.cons_ne_nil _ _
  | int n => simp [Value.jsonChars]
  | float token =>
      intro hnil
      rw [Value.jsonChars] at hnil
      simp [Value.isJson, isFloatToken, hnil] at hjson
  | str _ => cases htoken
  | timestamp _ => cases htoken
  | list _ => cases htoken
  | dict _ => cases htoken

/-- The first character of a text tells the kind of its value. -/
inductive StartsWith : Value → Char → Prop
  | token {value : Value} {c : Char} : value.isToken = true → isTokenChar c = true →
      StartsWith value c
  | str (s : String) : StartsWith (.str s) '"'
  | list (items : List Value) : StartsWith (.list items) '['
  | dict (members : List (String × Value)) : StartsWith (.dict members) '{'

theorem StartsWith.ne_bracket {value : Value} {c : Char} (h : StartsWith value c) : c ≠ ']' := by
  cases h with
  | token _ hc =>
      rintro rfl
      cases hc
  | str => decide
  | list => decide
  | dict => decide

/-- Induction on a value: its items and the values of its members come first. -/
@[elab_as_elim]
theorem Value.induction {P : Value → Prop} (value : Value)
    (scalar : ∀ value : Value, (∀ items, value ≠ .list items) →
      (∀ members, value ≠ .dict members) → P value)
    (list : ∀ items, (∀ item ∈ items, P item) → P (.list items))
    (dict : ∀ members, (∀ member ∈ members, P member.2) → P (.dict members)) : P value := by
  refine @Value.rec P (fun items => ∀ item ∈ items, P item)
    (fun members => ∀ member ∈ members, P member.2) (fun member => P member.2)
    ?_ ?_ ?_ ?_ ?_ ?_ list dict ?_ ?_ ?_ ?_ ?_ value
  case refine_7 => exact fun item h => absurd h List.not_mem_nil
  case refine_9 => exact fun member h => absurd h List.not_mem_nil
  case refine_8 =>
    intro item rest hitem hrest other hother
    rcases List.mem_cons.mp hother with rfl | h
    · exact hitem
    · exact hrest other h
  case refine_10 =>
    intro member rest hmember hrest other hother
    rcases List.mem_cons.mp hother with rfl | h
    · exact hmember
    · exact hrest other h
  case refine_11 => exact fun _ _ h => h
  all_goals
    intros
    apply scalar <;> simp

/-- String literals that begin with a quote and determine the string and what follows. -/
structure StringLiterals (quote : String → List Char) : Prop where
  first : ∀ s, ∃ rest, quote s = '"' :: rest
  append : ∀ {s t : String} {r r' : List Char}, quote s ++ r = quote t ++ r' → s = t ∧ r = r'

theorem quoted_literals : StringLiterals quoted where
  first _ := ⟨_, rfl⟩
  append := quoted_append

section Literals

variable {quote : String → List Char}

theorem Value.charsWith_token {value : Value} (h : value.isToken = true) :
    value.charsWith quote = value.jsonChars := by
  cases value with
  | null => rfl
  | bool b => rfl
  | int n => rfl
  | float token => rfl
  | str _ => cases h
  | timestamp _ => cases h
  | list _ => cases h
  | dict _ => cases h

theorem charsWith_first (hquote : StringLiterals quote) {value : Value}
    (hjson : value.isJson = true) :
    ∃ c rest, value.charsWith quote = c :: rest ∧ StartsWith value c := by
  by_cases htoken : value.isToken = true
  · obtain ⟨c, rest, hchars⟩ := List.exists_cons_of_ne_nil (token_ne_nil hjson htoken)
    refine ⟨c, rest, (Value.charsWith_token htoken).trans hchars, .token htoken ?_⟩
    exact tokenChars hjson htoken c (by simp [hchars])
  · cases value with
    | str s =>
        obtain ⟨rest, hrest⟩ := hquote.first s
        exact ⟨_, rest, by rw [Value.charsWith, hrest], .str s⟩
    | list items => exact ⟨_, _, by rw [Value.charsWith], .list items⟩
    | dict members => exact ⟨_, _, by rw [Value.charsWith], .dict members⟩
    | timestamp _ => cases hjson
    | null => exact absurd rfl htoken
    | bool _ => exact absurd rfl htoken
    | int _ => exact absurd rfl htoken
    | float _ => exact absurd rfl htoken

/-- Texts with the same start and their continuations start alike. -/
theorem startsWith_of_append (hquote : StringLiterals quote) {a b : Value} {r r' : List Char}
    (hb : b.isJson = true) (h : a.charsWith quote ++ r = b.charsWith quote ++ r') {c : Char}
    {rest : List Char} (ha : a.charsWith quote = c :: rest) : StartsWith b c := by
  obtain ⟨d, rest', hd, hstart⟩ := charsWith_first hquote hb
  rw [ha, hd, List.cons_append, List.cons_append] at h
  exact (List.cons.inj h).1 ▸ hstart

/-- The values that such a text determines. -/
def Value.ReadsBackWith (quote : String → List Char) (value : Value) : Prop :=
  PrefixCode.ReadsBack (Value.charsWith quote) (fun v => v.isJson = true) (Ends isTokenChar) value

/-- The text of a member determines it when the text of its value does. -/
theorem memberWith_readsBack (hquote : StringLiterals quote) {member : String × Value}
    (hvalue : member.2.ReadsBackWith quote) :
    ReadsBack (memberWith quote) (fun m => m.2.isJson = true) (Ends isTokenChar) member := by
  intro other hother r r' hr hr' h
  simp only [memberWith, List.append_assoc, List.cons_append] at h
  obtain ⟨hkey, hrest⟩ := hquote.append h
  obtain ⟨hsame, hfollow⟩ := hvalue other.2 hother r r' hr hr' (List.cons.inj hrest).2
  exact ⟨Prod.ext hkey hsame, hfollow⟩

theorem readsBack_token (hquote : StringLiterals quote) {a : Value} (ha : a.isJson = true)
    (htoken : a.isToken = true) : a.ReadsBackWith quote := by
  intro b hb r r' hr hr' h
  obtain ⟨c, rest, hca⟩ := List.exists_cons_of_ne_nil (token_ne_nil ha htoken)
  have hc := tokenChars ha htoken c (by simp [hca])
  have htoken' : b.isToken = true := by
    cases startsWith_of_append hquote hb h ((Value.charsWith_token htoken).trans hca) with
    | token htoken' _ => exact htoken'
    | str => cases hc
    | list => cases hc
    | dict => cases hc
  rw [Value.charsWith_token htoken, Value.charsWith_token htoken'] at h
  obtain ⟨hchars, hrest⟩ := token_append (tokenChars ha htoken) (tokenChars hb htoken') hr hr' h
  rw [← readToken_jsonChars ha htoken, hchars, readToken_jsonChars hb htoken']
  exact ⟨rfl, hrest⟩

theorem readsBack_str (hquote : StringLiterals quote) (s : String) :
    (Value.str s).ReadsBackWith quote := by
  intro b hb r r' _ _ h
  obtain ⟨rest, hrest⟩ := hquote.first s
  cases startsWith_of_append hquote hb h (by rw [Value.charsWith, hrest]) with
  | token _ hc => cases hc
  | str t =>
      rw [Value.charsWith, Value.charsWith] at h
      obtain ⟨rfl, hrest⟩ := hquote.append h
      exact ⟨rfl, hrest⟩

theorem readsBack_list (hquote : StringLiterals quote) {items : List Value}
    (hjson : ∀ item ∈ items, item.isJson = true)
    (hitems : ∀ item ∈ items, item.ReadsBackWith quote) :
    (Value.list items).ReadsBackWith quote := by
  intro b hb r r' _ _ h
  cases startsWith_of_append hquote hb h (by rw [Value.charsWith]) with
  | token _ hc => cases hc
  | list others =>
      rw [Value.isJson, itemsAreJson_iff] at hb
      rw [Value.charsWith, Value.charsWith, itemsWith_eq, itemsWith_eq] at h
      simp only [List.cons_append, List.append_assoc, List.nil_append, List.cons.injEq,
        true_and] at h
      have hstop : ∀ item : Value, item.isJson = true →
          ∃ c word, item.charsWith quote = c :: word ∧ c ≠ ']' := by
        intro item hitem
        obtain ⟨c, word, hword, hstart⟩ := charsWith_first hquote hitem
        exact ⟨c, word, hword, hstart.ne_bracket⟩
      obtain ⟨rfl, hrest⟩ := separated_terminated (by decide) (by simp [isTokenChar])
        (by simp [isTokenChar]) hstop hjson hitems hb h
      exact ⟨rfl, hrest⟩

theorem readsBack_dict (hquote : StringLiterals quote) {members : List (String × Value)}
    (hjson : ∀ member ∈ members, member.2.isJson = true)
    (hmembers : ∀ member ∈ members, member.2.ReadsBackWith quote) :
    (Value.dict members).ReadsBackWith quote := by
  intro b hb r r' _ _ h
  cases startsWith_of_append hquote hb h (by rw [Value.charsWith]) with
  | token _ hc => cases hc
  | dict others =>
      rw [Value.isJson, membersAreJson_iff] at hb
      rw [Value.charsWith, Value.charsWith, membersWith_eq, membersWith_eq] at h
      simp only [List.cons_append, List.append_assoc, List.nil_append, List.cons.injEq,
        true_and] at h
      have hstop : ∀ member : String × Value, member.2.isJson = true →
          ∃ c word, memberWith quote member = c :: word ∧ c ≠ '}' := by
        intro member _
        obtain ⟨rest, hrest⟩ := hquote.first member.1
        exact ⟨_, _, by rw [memberWith, hrest, List.cons_append], by decide⟩
      obtain ⟨rfl, hrest⟩ := separated_terminated (by decide) (by simp [isTokenChar])
        (by simp [isTokenChar]) hstop hjson
        (fun member hmember => memberWith_readsBack hquote (hmembers member hmember)) hb h
      exact ⟨rfl, hrest⟩

/-- A JSON text determines its value and what follows it. -/
theorem charsWith_readsBack (hquote : StringLiterals quote) (a : Value) :
    a.isJson = true → a.ReadsBackWith quote := by
  induction a using Value.induction with
  | scalar a hlist hdict =>
      intro ha
      cases a with
      | str s => exact readsBack_str hquote s
      | timestamp _ => cases ha
      | list items => exact absurd rfl (hlist items)
      | dict members => exact absurd rfl (hdict members)
      | null => exact readsBack_token hquote ha rfl
      | bool _ => exact readsBack_token hquote ha rfl
      | int _ => exact readsBack_token hquote ha rfl
      | float _ => exact readsBack_token hquote ha rfl
  | list items ih =>
      intro ha
      rw [Value.isJson, itemsAreJson_iff] at ha
      exact readsBack_list hquote ha fun item hitem => ih item hitem (ha item hitem)
  | dict members ih =>
      intro ha
      rw [Value.isJson, membersAreJson_iff] at ha
      exact readsBack_dict hquote ha fun member hmember => ih member hmember (ha member hmember)

theorem charsWith_inj (hquote : StringLiterals quote) {a b : Value} (ha : a.isJson = true)
    (hb : b.isJson = true) (h : a.charsWith quote = b.charsWith quote) : a = b := by
  have hchars : a.charsWith quote ++ [] = b.charsWith quote ++ [] := by
    rw [List.append_nil, List.append_nil, h]
  exact (charsWith_readsBack hquote a ha b hb [] [] (ends_nil _) (ends_nil _) hchars).1

end Literals

theorem separated_congr {α : Type} {f g : α → List Char} {items : List α}
    (h : ∀ item ∈ items, f item = g item) : separated ',' f items = separated ',' g items := by
  induction items with
  | nil => rfl
  | cons item rest ih =>
      have hitem := h item List.mem_cons_self
      have hrest := ih fun other hother => h other (List.mem_cons_of_mem _ hother)
      cases rest with
      | nil => simpa [separated] using hitem
      | cons other rest => rw [separated, separated, hitem, hrest]

/-- `json.dumps` escapes what is no printable ASCII in its literals. -/
theorem Value.jsonChars_eq (value : Value) : value.jsonChars = value.charsWith quoted := by
  induction value using Value.induction with
  | scalar value hlist hdict =>
      cases value with
      | list items => exact absurd rfl (hlist items)
      | dict members => exact absurd rfl (hdict members)
      | _ => rfl
  | list items ih =>
      rw [Value.jsonChars, Value.charsWith, itemsChars_eq, itemsWith_eq, separated_congr ih]
  | dict members ih =>
      have hmembers : ∀ member ∈ members, memberChars member = memberWith quoted member :=
        fun member hmember => by rw [memberChars, memberWith, ih member hmember]
      rw [Value.jsonChars, Value.charsWith, membersChars_eq, membersWith_eq,
        separated_congr hmembers]

theorem jsonChars_first {value : Value} (hjson : value.isJson = true) :
    ∃ c rest, value.jsonChars = c :: rest ∧ StartsWith value c := by
  rw [value.jsonChars_eq]
  exact charsWith_first quoted_literals hjson

theorem Value.jsonText_inj {a b : Value} (ha : a.isJson = true) (hb : b.isJson = true)
    (h : a.jsonText = b.jsonText) : a = b := by
  have hchars : a.jsonChars = b.jsonChars := String.ofList_inj.mp h
  rw [a.jsonChars_eq, b.jsonChars_eq] at hchars
  exact charsWith_inj quoted_literals ha hb hchars

section Sorting

variable {β : Type}

instance keyTotal : Std.Total fun a b : String × β => a.1 ≤ b.1 := ⟨fun a b => le_total a.1 b.1⟩

instance keyTrans : IsTrans (String × β) fun a b => a.1 ≤ b.1 := ⟨fun _ _ _ => le_trans⟩

theorem sortByKey_perm (items : List (String × β)) : (sortByKey items).Perm items :=
  List.perm_insertionSort _ _

@[simp] theorem mem_sortByKey {items : List (String × β)} {item : String × β} :
    item ∈ sortByKey items ↔ item ∈ items :=
  (sortByKey_perm items).mem_iff

/-- The order of a dictionary does not matter to its sorted form. -/
theorem sortByKey_congr {items others : List (String × β)} (hkeys : (items.map (·.1)).Nodup)
    (hperm : items.Perm others) : sortByKey items = sortByKey others := by
  have hunique : ∀ a b, a ∈ sortByKey items → b ∈ sortByKey others → a.1 ≤ b.1 → b.1 ≤ a.1 →
      a = b := by
    intro a b ha hb hab hba
    rw [mem_sortByKey] at ha hb
    exact List.inj_on_of_nodup_map hkeys ha (hperm.mem_iff.mpr hb) (le_antisymm hab hba)
  apply List.Perm.eq_of_pairwise hunique
  · exact List.pairwise_insertionSort _ _
  · exact List.pairwise_insertionSort _ _
  · exact ((sortByKey_perm items).trans hperm).trans (sortByKey_perm others).symm

end Sorting

theorem sortItems_eq (items : List Value) : sortItems items = items.map Value.sortKeys := by
  induction items with
  | nil => simp [sortItems]
  | cons value rest ih => simp [sortItems, ih]

theorem sortMembers_eq (members : List (String × Value)) :
    sortMembers members = members.map fun member => (member.1, member.2.sortKeys) := by
  induction members with
  | nil => simp [sortMembers]
  | cons member rest ih => simp [sortMembers, ih]

theorem Value.isJson_sortKeys (value : Value) : value.sortKeys.isJson = value.isJson := by
  induction value using Value.induction with
  | scalar value hlist hdict =>
      cases value with
      | list items => exact absurd rfl (hlist items)
      | dict members => exact absurd rfl (hdict members)
      | _ => rfl
  | list items ih =>
      rw [Value.sortKeys, sortItems_eq, Bool.eq_iff_iff, Value.isJson, Value.isJson,
        itemsAreJson_iff, itemsAreJson_iff, List.forall_mem_map]
      exact forall₂_congr fun item hitem => by rw [ih item hitem]
  | dict members ih =>
      rw [Value.sortKeys, sortMembers_eq, Bool.eq_iff_iff, Value.isJson, Value.isJson,
        membersAreJson_iff, membersAreJson_iff]
      simp only [mem_sortByKey, List.forall_mem_map]
      exact forall₂_congr fun member hmember => by rw [ih member hmember]

/-- Canonical texts of JSON values agree when the values do, up to the order of keys. -/
theorem canonicalText_eq_iff {a b : Value} (ha : a.isJson = true) (hb : b.isJson = true) :
    a.canonicalText = b.canonicalText ↔ a.sortKeys = b.sortKeys := by
  constructor
  · exact Value.jsonText_inj (a.isJson_sortKeys.trans ha) (b.isJson_sortKeys.trans hb)
  · exact congrArg Value.jsonText

mutual

/-- Equality of values, by their constructors. -/
def Value.same : Value → Value → Bool
  | .null, .null => true
  | .bool a, .bool b => a == b
  | .int a, .int b => a == b
  | .float a, .float b => a == b
  | .str a, .str b => a == b
  | .timestamp a, .timestamp b => decide (a = b)
  | .list as, .list bs => sameItems as bs
  | .dict as, .dict bs => sameMembers as bs
  | _, _ => false

def sameItems : List Value → List Value → Bool
  | [], [] => true
  | a :: as, b :: bs => a.same b && sameItems as bs
  | _, _ => false

def sameMembers : List (String × Value) → List (String × Value) → Bool
  | [], [] => true
  | (key, a) :: as, (key', b) :: bs => key == key' && a.same b && sameMembers as bs
  | _, _ => false

end

theorem sameItems_iff {items : List Value} (h : ∀ a ∈ items, ∀ b, a.same b = true ↔ a = b)
    (others : List Value) : sameItems items others = true ↔ items = others := by
  induction items generalizing others with
  | nil => cases others <;> simp [sameItems]
  | cons a rest ih =>
      obtain ⟨ha, hrest⟩ := List.forall_mem_cons.mp h
      cases others with
      | nil => simp [sameItems]
      | cons b others => simp [sameItems, ha, ih hrest]

theorem sameMembers_iff {members : List (String × Value)}
    (h : ∀ a ∈ members, ∀ b, a.2.same b = true ↔ a.2 = b) (others : List (String × Value)) :
    sameMembers members others = true ↔ members = others := by
  induction members generalizing others with
  | nil => cases others <;> simp [sameMembers]
  | cons a rest ih =>
      obtain ⟨ha, hrest⟩ := List.forall_mem_cons.mp h
      cases others with
      | nil => simp [sameMembers]
      | cons b others => simp [sameMembers, ha, ih hrest, Prod.ext_iff]

theorem Value.same_iff (a b : Value) : a.same b = true ↔ a = b := by
  induction a using Value.induction generalizing b with
  | scalar value hlist hdict =>
      cases value with
      | list items => exact absurd rfl (hlist items)
      | dict members => exact absurd rfl (hdict members)
      | _ => cases b <;> simp [Value.same]
  | list items ih => cases b <;> simp [Value.same, sameItems_iff ih]
  | dict items ih => cases b <;> simp [Value.same, sameMembers_iff ih]

instance : DecidableEq Value := fun a b => decidable_of_iff (a.same b = true) (a.same_iff b)

end FeatureStore
