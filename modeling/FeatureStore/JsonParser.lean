import FeatureStore.JsonText
import FeatureStore.Library.Dictionaries

/-!
# Reading JSON texts

`json.loads`. It reads the texts that `json.dumps` writes back to their values, and
what it accepts is a value of that kind. A float keeps the token that denotes it.
-/

namespace FeatureStore

open PrefixCode

/-- The letters after a backslash and the characters they stand for. -/
def letterEscapes : List (Char × Char) :=
  [('"', '"'), ('\\', '\\'), ('/', '/'), ('b', '\x08'), ('f', '\x0c'), ('n', '\n'),
    ('r', '\r'), ('t', '\t')]

def hexValue? (c : Char) : Option Nat :=
  if c.isDigit then some (c.toNat - 48)
  else if 'a' ≤ c ∧ c ≤ 'f' then some (c.toNat - 87)
  else if 'A' ≤ c ∧ c ≤ 'F' then some (c.toNat - 55)
  else none

/-- The four hexadecimal digits of a UTF-16 unit. -/
def readUnit : List Char → Option (Nat × List Char)
  | a :: b :: c :: d :: rest => do
      let high := (← hexValue? a) * 4096 + (← hexValue? b) * 256
      let low := (← hexValue? c) * 16 + (← hexValue? d)
      return (high + low, rest)
  | _ => none

/-- The low surrogate after a high one. No string here has a lone surrogate. -/
def readSurrogate (high : Nat) : List Char → Option (Char × List Char)
  | '\\' :: 'u' :: rest => do
      let (low, rest) ← readUnit rest
      if 56320 ≤ low ∧ low < 57344 then
        return (Char.ofNat (65536 + (high - 55296) * 1024 + (low - 56320)), rest)
      else none
  | _ => none

/-- One character of a string literal. -/
def readChar : List Char → Option (Char × List Char)
  | '\\' :: letter :: rest =>
      if letter = 'u' then do
        let (unit, rest) ← readUnit rest
        if 55296 ≤ unit ∧ unit < 56320 then readSurrogate unit rest
        else if 56320 ≤ unit ∧ unit < 57344 then none
        else return (Char.ofNat unit, rest)
      else (letterEscapes.lookup letter).map fun c => (c, rest)
  | c :: rest => if ' ' ≤ c ∧ c ≠ '"' ∧ c ≠ '\\' then some (c, rest) else none
  | [] => none

/-- The rest of a string literal after its opening quote. -/
def readChars : Nat → List Char → Option (List Char × List Char)
  | 0, _ => none
  | _ + 1, '"' :: rest => some ([], rest)
  | fuel + 1, chars => do
      let (c, rest) ← readChar chars
      let (others, rest) ← readChars fuel rest
      return (c :: others, rest)

def readString (chars : List Char) : Option (String × List Char) :=
  (readChars (chars.length + 1) chars).map fun result => (String.ofList result.1, result.2)

/-- `0|[1-9][0-9]*` -/
def isNatText (digits : List Char) : Bool :=
  digits.all Char.isDigit && decide (digits ≠ []) &&
    (decide (digits.head? ≠ some '0') || decide (digits.length = 1))

/-- `-?(0|[1-9][0-9]*)` -/
def isIntText : List Char → Bool
  | '-' :: digits => isNatText digits
  | digits => isNatText digits

def isDigits (digits : List Char) : Bool := digits.all Char.isDigit && decide (digits ≠ [])

/-- `[eE][-+]?[0-9]+`, if there is an exponent. -/
def isExponent : List Char → Bool
  | [] => true
  | _ :: '-' :: digits => isDigits digits
  | _ :: '+' :: digits => isDigits digits
  | _ :: digits => isDigits digits

/-- The floats of `NUMBER_RE`, and the words for the others. -/
def isFloatText (token : List Char) : Bool :=
  token == "NaN".toList || token == "Infinity".toList || token == "-Infinity".toList ||
    let mantissa := token.takeWhile fun c => c != 'e' && c != 'E'
    let exponent := token.drop mantissa.length
    let whole := mantissa.takeWhile (· != '.')
    let fraction := mantissa.drop whole.length
    isIntText whole && (fraction.isEmpty || isDigits fraction.tail) && isExponent exponent &&
      !(fraction.isEmpty && exponent.isEmpty)

/-- A literal or a number. -/
def loadToken (token : List Char) : Option Value :=
  if token = ['n', 'u', 'l', 'l'] then some .null
  else if token = ['t', 'r', 'u', 'e'] then some (.bool true)
  else if token = ['f', 'a', 'l', 's', 'e'] then some (.bool false)
  else if isIntText token then some (.int (readInt token))
  else if isFloatText token then some (.float (String.ofList token))
  else none

def isJsonSpace (c : Char) : Bool := c == ' ' || c == '\t' || c == '\n' || c == '\r'

def skipSpace (chars : List Char) : List Char := chars.dropWhile isJsonSpace

mutual

/-- A value at the start of a text, with what follows it. -/
def readValue : Nat → List Char → Option (Value × List Char)
  | 0, _ => none
  | fuel + 1, chars =>
      match skipSpace chars with
      | '"' :: rest => (readString rest).map fun result => (.str result.1, result.2)
      | '[' :: rest =>
          match skipSpace rest with
          | ']' :: rest => some (.list [], rest)
          | rest => (readItems fuel rest).map fun result => (.list result.1, result.2)
      | '{' :: rest =>
          match skipSpace rest with
          | '}' :: rest => some (.dict [], rest)
          | rest =>
              (readMembers fuel rest).map fun result =>
                (.dict (Dictionaries.ofItems result.1), result.2)
      | rest =>
          (loadToken (rest.takeWhile isTokenChar)).map fun value =>
            (value, rest.dropWhile isTokenChar)

/-- The items of an array up to its bracket. -/
def readItems : Nat → List Char → Option (List Value × List Char)
  | 0, _ => none
  | fuel + 1, chars => do
      let (value, rest) ← readValue fuel chars
      match skipSpace rest with
      | ',' :: rest =>
          let (others, rest) ← readItems fuel rest
          return (value :: others, rest)
      | ']' :: rest => return ([value], rest)
      | _ => none

/-- The members of an object up to its brace. -/
def readMembers : Nat → List Char → Option (List (String × Value) × List Char)
  | 0, _ => none
  | fuel + 1, chars =>
      match skipSpace chars with
      | '"' :: rest => do
          let (key, rest) ← readString rest
          match skipSpace rest with
          | ':' :: rest =>
              let (value, rest) ← readValue fuel rest
              match skipSpace rest with
              | ',' :: rest =>
                  let (others, rest) ← readMembers fuel rest
                  return ((key, value) :: others, rest)
              | '}' :: rest => return ([(key, value)], rest)
              | _ => none
          | _ => none
      | _ => none

end

/-- `json.loads`, with floats as they are spelled; there is no value when it raises. -/
def jsonLoads (text : String) : Option Value :=
  match readValue (text.length + 1) text.toList with
  | some (value, rest) => if skipSpace rest = [] then some value else none
  | none => none

mutual

/-- What `json.loads` returns: objects have distinct keys, floats are written as floats. -/
def Value.isLoaded : Value → Bool
  | .timestamp _ => false
  | .float token => isFloatToken token && isFloatText token.toList
  | .list items => itemsAreLoaded items
  | .dict members => membersAreLoaded members && decide (members.map (·.1)).Nodup
  | _ => true

def itemsAreLoaded : List Value → Bool
  | [] => true
  | value :: rest => value.isLoaded && itemsAreLoaded rest

def membersAreLoaded : List (String × Value) → Bool
  | [] => true
  | (_, value) :: rest => value.isLoaded && membersAreLoaded rest

end

theorem itemsAreLoaded_iff {items : List Value} :
    itemsAreLoaded items = true ↔ ∀ value ∈ items, value.isLoaded = true := by
  induction items with
  | nil => simp [itemsAreLoaded]
  | cons value rest ih => simp [itemsAreLoaded, ih]

theorem membersAreLoaded_iff {members : List (String × Value)} :
    membersAreLoaded members = true ↔ ∀ member ∈ members, member.2.isLoaded = true := by
  induction members with
  | nil => simp [membersAreLoaded]
  | cons member rest ih => simp [membersAreLoaded, ih]

theorem Value.isJson_of_isLoaded (value : Value) (h : value.isLoaded = true) :
    value.isJson = true := by
  induction value using Value.induction with
  | scalar value hlist hdict =>
      cases value with
      | timestamp t => cases h
      | float token =>
          rw [Value.isLoaded, Bool.and_eq_true] at h
          exact h.1
      | list items => exact absurd rfl (hlist items)
      | dict members => exact absurd rfl (hdict members)
      | null => rfl
      | bool b => rfl
      | int n => rfl
      | str s => rfl
  | list items ih =>
      rw [Value.isLoaded, itemsAreLoaded_iff] at h
      rw [Value.isJson, itemsAreJson_iff]
      exact fun item hitem => ih item hitem (h item hitem)
  | dict members ih =>
      rw [Value.isLoaded, Bool.and_eq_true, membersAreLoaded_iff] at h
      rw [Value.isJson, membersAreJson_iff]
      exact fun member hmember => ih member hmember (h.1 member hmember)

section Strings

theorem hexValue?_digitChar {n : Nat} (h : n < 16) : hexValue? (Nat.digitChar n) = some n := by
  have hall : ∀ n : Fin 16, hexValue? (Nat.digitChar n) = some n.1 := by decide
  exact hall ⟨n, h⟩

theorem readUnit_unitEscape {unit : Nat} (h : unit < 65536) (rest : List Char) :
    ∃ digits, unitEscape unit = '\\' :: 'u' :: digits ∧
      readUnit (digits ++ rest) = some (unit, rest) := by
  refine ⟨_, rfl, ?_⟩
  simp only [List.cons_append, List.nil_append, readUnit,
    hexValue?_digitChar (Nat.mod_lt _ (by decide : 0 < 16)), Option.bind_eq_bind,
    Option.bind_some, Option.pure_def, Option.some.injEq, Prod.mk.injEq, and_true]
  omega

theorem readSurrogate_unitEscape {high offset : Nat} (h : offset < 1024) (rest : List Char) :
    readSurrogate high (unitEscape (56320 + offset) ++ rest) =
      some (Char.ofNat (65536 + (high - 55296) * 1024 + offset), rest) := by
  have hlow : 56320 + offset < 65536 := by omega
  have hrange : 56320 ≤ 56320 + offset ∧ 56320 + offset < 57344 := by omega
  obtain ⟨digits, hdigits, hread⟩ := readUnit_unitEscape hlow rest
  rw [hdigits, List.cons_append, List.cons_append, readSurrogate, hread, Option.bind_eq_bind,
    Option.bind_some]
  dsimp only
  rw [if_pos hrange, Nat.add_sub_cancel_left, Option.pure_def]

/-- A unit that is no surrogate is a character of its own. -/
theorem readChar_unit {unit : Nat} (hunit : unit < 65536)
    (h : unit < 55296 ∨ 57343 < unit) (rest : List Char) :
    readChar (unitEscape unit ++ rest) = some (Char.ofNat unit, rest) := by
  have hhigh : ¬(55296 ≤ unit ∧ unit < 56320) := by omega
  have hlow : ¬(56320 ≤ unit ∧ unit < 57344) := by omega
  obtain ⟨digits, hdigits, hread⟩ := readUnit_unitEscape hunit rest
  rw [hdigits, List.cons_append, List.cons_append, readChar, if_pos rfl, hread,
    Option.bind_eq_bind, Option.bind_some]
  dsimp only
  rw [if_neg hhigh, if_neg hlow, Option.pure_def]

theorem readChar_surrogates {high offset : Nat} (hhigh : high < 1024) (hoffset : offset < 1024)
    (rest : List Char) :
    readChar (unitEscape (55296 + high) ++ (unitEscape (56320 + offset) ++ rest)) =
      some (Char.ofNat (65536 + high * 1024 + offset), rest) := by
  have hunit : 55296 + high < 65536 := by omega
  have hrange : 55296 ≤ 55296 + high ∧ 55296 + high < 56320 := by omega
  obtain ⟨digits, hdigits, hread⟩ := readUnit_unitEscape hunit
    (unitEscape (56320 + offset) ++ rest)
  rw [hdigits, List.cons_append, List.cons_append, readChar, if_pos rfl, hread,
    Option.bind_eq_bind, Option.bind_some]
  dsimp only
  rw [if_pos hrange, readSurrogate_unitEscape hoffset, Nat.add_sub_cancel_left]

theorem readChar_unicodeEscape (c : Char) (rest : List Char) :
    readChar (unicodeEscape c ++ rest) = some (c, rest) := by
  have hc := Char.toNat_ranges c
  rw [unicodeEscape]
  split
  · rename_i hsmall
    rw [readChar_unit hsmall (by omega), Char.ofNat_toNat]
  · rename_i hlarge
    have hcode : 65536 + (c.toNat - 65536) / 1024 * 1024 + (c.toNat - 65536) % 1024 =
        c.toNat := by omega
    rw [List.append_assoc, readChar_surrogates (by omega) (Nat.mod_lt _ (by decide)), hcode,
      Char.ofNat_toNat]

theorem readChar_escapeChar (c : Char) (rest : List Char) :
    readChar (escapeChar c ++ rest) = some (c, rest) := by
  unfold escapeChar
  cases h : shortEscapes.lookup c with
  | some letter =>
      have hall : ∀ pair ∈ shortEscapes,
          pair.2 ≠ 'u' ∧ letterEscapes.lookup pair.2 = some pair.1 := by decide
      obtain ⟨hletter, hback⟩ := hall _ (mem_shortEscapes h)
      simp only [List.cons_append, List.nil_append, readChar]
      rw [if_neg hletter, hback]
      rfl
  | none =>
      dsimp only
      split
      · rename_i hprintable
        have hbackslash : c ≠ '\\' := by
          rintro rfl
          cases h
        have hquote : c ≠ '"' := by
          rintro rfl
          cases h
        rw [List.singleton_append, readChar.eq_def]
        split
        · rename_i heq
          exact absurd (List.cons.inj heq).1 hbackslash
        · rename_i heq
          obtain ⟨rfl, rfl⟩ := List.cons.inj heq
          rw [if_pos ⟨hprintable.1, hquote, hbackslash⟩]
        · rename_i heq
          cases heq
      · exact readChar_unicodeEscape c rest

theorem readChars_flatMap {chars rest : List Char} {fuel : Nat} (h : chars.length < fuel) :
    readChars fuel (chars.flatMap escapeChar ++ '"' :: rest) = some (chars, rest) := by
  induction chars generalizing fuel with
  | nil =>
      obtain ⟨fuel, rfl⟩ := Nat.exists_eq_add_of_lt h
      rfl
  | cons c others ih =>
      cases fuel with
      | zero => cases h
      | succ fuel =>
          have hothers := ih (Nat.lt_of_succ_lt_succ h)
          obtain ⟨first, word, hword, hquote⟩ := escapeChar_head c
          have hread := readChar_escapeChar c (others.flatMap escapeChar ++ '"' :: rest)
          rw [List.flatMap_cons, List.append_assoc]
          rw [hword, List.cons_append] at hread ⊢
          rw [readChars, hread]
          · simp only [Option.bind_eq_bind, Option.bind_some, hothers]
            rfl
          · exact fun _ heq => hquote (List.cons.inj heq).1

theorem readString_quoted (s : String) (rest : List Char) :
    ∃ chars, quoted s ++ rest = '"' :: chars ∧ readString chars = some (s, rest) := by
  refine ⟨s.toList.flatMap escapeChar ++ '"' :: rest, by simp [quoted], ?_⟩
  have hlength : s.toList.length ≤ (s.toList.flatMap escapeChar).length := by
    rw [List.length_flatMap]
    induction s.toList with
    | nil => exact Nat.le_refl 0
    | cons c others ih =>
        obtain ⟨first, word, hword, -⟩ := escapeChar_head c
        simp only [List.map_cons, List.sum_cons, List.length_cons, hword]
        omega
  rw [readString, readChars_flatMap (by rw [List.length_append]; omega), Option.map_some,
    String.ofList_toList]

end Strings

section Tokens

theorem isNatText_toDigits (n : Nat) : isNatText (Nat.toDigits 10 n) = true := by
  have hhead : 0 < n → (Nat.toDigits 10 n).head? ≠ some '0' := by
    induction n using Nat.strongRecOn with
    | ind n ih =>
        intro hn
        by_cases hsmall : n < 10
        · rw [Nat.toDigits_of_lt_base hsmall]
          have hall : ∀ d : Fin 10, 0 < d.1 → Nat.digitChar d ≠ '0' := by decide
          simpa using hall ⟨n, hsmall⟩ hn
        · rw [Nat.toDigits_of_base_le (by decide) (by omega)]
          have hrest := ih (n / 10) (by omega) (by omega)
          cases h : Nat.toDigits 10 (n / 10) with
          | nil => simp at h
          | cons d others => simpa [h] using hrest
  have hdigits : (Nat.toDigits 10 n).all Char.isDigit = true :=
    List.all_eq_true.mpr fun c hc => Nat.isDigit_of_mem_toDigits (by decide) (by decide) hc
  rw [isNatText, hdigits]
  cases n with
  | zero => rfl
  | succ n => simp [hhead (Nat.succ_pos n)]

theorem isIntText_jsonChars (n : Int) : isIntText (Value.int n).jsonChars = true := by
  rw [Value.jsonChars]
  by_cases hn : n < 0
  · rw [if_pos hn]
    exact isNatText_toDigits _
  · rw [if_neg hn, List.nil_append]
    have hdigits := isNatText_toDigits n.natAbs
    unfold isIntText
    split
    · rename_i digits heq
      rw [heq] at hdigits
      cases hdigits
    · exact hdigits

theorem isIntChar_of_isIntText {token : List Char} (h : isIntText token = true) :
    token.all isIntChar = true := by
  have hnat : ∀ digits : List Char, isNatText digits = true → digits.all isIntChar = true := by
    intro digits hdigits
    rw [isNatText, Bool.and_eq_true, Bool.and_eq_true, List.all_eq_true] at hdigits
    rw [List.all_eq_true]
    exact fun c hc => by simp [isIntChar, hdigits.1.1 c hc]
  unfold isIntText at h
  split at h
  · rw [List.all_cons, hnat _ h]
    rfl
  · exact hnat _ h

theorem loadToken_jsonChars {value : Value} (hloaded : value.isLoaded = true)
    (htoken : value.isToken = true) : loadToken value.jsonChars = some value := by
  have hread := readToken_jsonChars (value.isJson_of_isLoaded hloaded) htoken
  cases value with
  | null => rfl
  | bool b =>
      cases b with
      | false => rfl
      | true => rfl
  | int n =>
      have hint := isIntText_jsonChars n
      have hother : ∀ word : List Char, isIntText word = false →
          (Value.int n).jsonChars ≠ word := by
        intro word hword heq
        rw [heq, hword] at hint
        cases hint
      rw [loadToken, if_neg (hother _ (by decide)), if_neg (hother _ (by decide)),
        if_neg (hother _ (by decide)), if_pos hint, readInt_jsonChars]
  | float token =>
      rw [Value.isLoaded, Bool.and_eq_true] at hloaded
      rw [Value.jsonChars] at hread ⊢
      unfold readToken at hread
      split at hread
      · cases hread
      · rename_i hnull
        split at hread
        · cases hread
        · rename_i htrue
          split at hread
          · cases hread
          · rename_i hfalse
            split at hread
            · cases hread
            · rename_i hint
              have hint' : ¬isIntText token.toList = true :=
                fun h => hint (isIntChar_of_isIntText h)
              rw [loadToken, if_neg hnull, if_neg htrue, if_neg hfalse, if_neg hint',
                if_pos hloaded.2, String.ofList_toList]
  | str s => cases htoken
  | timestamp t => cases htoken
  | list items => cases htoken
  | dict members => cases htoken

end Tokens

section RoundTrip

/-- The values that are read back from their texts, whatever ends them. -/
def Value.LoadsBack (value : Value) : Prop :=
  ∀ fuel rest, value.jsonChars.length < fuel → Ends isTokenChar rest →
    readValue fuel (value.jsonChars ++ rest) = some (value, rest)

theorem skipSpace_cons {c : Char} (h : isJsonSpace c = false) (rest : List Char) :
    skipSpace (c :: rest) = c :: rest := by
  rw [skipSpace, List.dropWhile_cons, if_neg (by simp [h])]

theorem StartsWith.isJsonSpace {value : Value} {c : Char} (h : StartsWith value c) :
    isJsonSpace c = false := by
  cases h with
  | token _ hc =>
      cases hspace : FeatureStore.isJsonSpace c with
      | false => rfl
      | true =>
          simp only [FeatureStore.isJsonSpace, Bool.or_eq_true, beq_iff_eq] at hspace
          rcases hspace with ((rfl | rfl) | rfl) | rfl <;> cases hc
  | str => rfl
  | list => rfl
  | dict => rfl

theorem skipSpace_jsonChars {value : Value} (h : value.isJson = true) (rest : List Char) :
    skipSpace (value.jsonChars ++ rest) = value.jsonChars ++ rest := by
  obtain ⟨c, word, hword, hstart⟩ := jsonChars_first h
  rw [hword, List.cons_append]
  exact skipSpace_cons hstart.isJsonSpace _

theorem loadsBack_token {value : Value} (hloaded : value.isLoaded = true)
    (htoken : value.isToken = true) : value.LoadsBack := by
  intro fuel rest hfuel hrest
  have hjson := value.isJson_of_isLoaded hloaded
  have hchars := tokenChars hjson htoken
  obtain ⟨c, word, hword⟩ := List.exists_cons_of_ne_nil (token_ne_nil hjson htoken)
  have hc : isTokenChar c = true := hchars c (by simp [hword])
  cases fuel with
  | zero => cases hfuel
  | succ fuel =>
      rw [readValue, skipSpace_jsonChars hjson]
      have hmatch : ∀ other, isTokenChar other = false → ∀ tail,
          value.jsonChars ++ rest ≠ other :: tail := by
        intro other hother tail heq
        rw [hword, List.cons_append] at heq
        rw [(List.cons.inj heq).1, hother] at hc
        cases hc
      split
      · rename_i heq
        exact absurd heq (hmatch _ (by decide) _)
      · rename_i heq
        exact absurd heq (hmatch _ (by decide) _)
      · rename_i heq
        exact absurd heq (hmatch _ (by decide) _)
      · rw [takeWhile_append hchars hrest, dropWhile_append hchars hrest,
          loadToken_jsonChars hloaded htoken]
        rfl

theorem loadsBack_str (s : String) : (Value.str s).LoadsBack := by
  intro fuel rest hfuel _
  cases fuel with
  | zero => cases hfuel
  | succ fuel =>
      obtain ⟨chars, hchars, hread⟩ := readString_quoted s rest
      rw [Value.jsonChars, hchars, readValue, skipSpace_cons (by decide)]
      simp only [hread, Option.map_some]

theorem readItems_itemsChars {items : List Value} (hne : items ≠ [])
    (hloads : ∀ item ∈ items, item.LoadsBack) {fuel : Nat}
    (hfuel : (itemsChars items).length + 1 < fuel) (rest : List Char) :
    readItems fuel (itemsChars items ++ ']' :: rest) = some (items, rest) := by
  induction items generalizing fuel with
  | nil => exact absurd rfl hne
  | cons item others ih =>
      cases fuel with
      | zero => cases hfuel
      | succ fuel =>
          have hitem := hloads item List.mem_cons_self
          cases others with
          | nil =>
              rw [itemsChars] at hfuel ⊢
              rw [readItems, hitem fuel _ (by omega) (by simp [isTokenChar])]
              simp only [Option.bind_eq_bind, Option.bind_some, skipSpace_cons (by decide :
                isJsonSpace ']' = false)]
              rfl
          | cons other others =>
              rw [itemsChars, List.length_append, List.length_cons] at hfuel
              have hothers : readItems fuel (itemsChars (other :: others) ++ ']' :: rest) =
                  some (other :: others, rest) :=
                ih (List.cons_ne_nil _ _) (fun x hx => hloads x (List.mem_cons_of_mem _ hx))
                  (by omega)
              rw [itemsChars, List.append_assoc, List.cons_append, readItems,
                hitem fuel _ (by omega) (by simp [isTokenChar])]
              simp only [Option.bind_eq_bind, Option.bind_some, skipSpace_cons (by decide :
                isJsonSpace ',' = false)]
              rw [hothers]
              rfl

theorem readMembers_membersChars {members : List (String × Value)} (hne : members ≠ [])
    (hloads : ∀ member ∈ members, member.2.LoadsBack) {fuel : Nat}
    (hfuel : (membersChars members).length + 1 < fuel) (rest : List Char) :
    readMembers fuel (membersChars members ++ '}' :: rest) = some (members, rest) := by
  induction members generalizing fuel with
  | nil => exact absurd rfl hne
  | cons member others ih =>
      obtain ⟨key, value⟩ := member
      cases fuel with
      | zero => cases hfuel
      | succ fuel =>
          have hvalue : value.LoadsBack := hloads (key, value) List.mem_cons_self
          cases others with
          | nil =>
              rw [membersChars, List.length_append, List.length_cons] at hfuel
              rw [membersChars, List.append_assoc, List.cons_append]
              obtain ⟨chars, hchars, hread⟩ := readString_quoted key
                (':' :: (value.jsonChars ++ '}' :: rest))
              rw [hchars, readMembers, skipSpace_cons (by decide)]
              simp only [hread, Option.bind_eq_bind, Option.bind_some, skipSpace_cons (by decide :
                isJsonSpace ':' = false)]
              rw [hvalue fuel _ (by omega) (by simp [isTokenChar])]
              simp only [Option.bind_some, skipSpace_cons (by decide : isJsonSpace '}' = false)]
              rfl
          | cons other others =>
              rw [membersChars, List.length_append, List.length_cons, List.length_append,
                List.length_cons] at hfuel
              have hothers : readMembers fuel (membersChars (other :: others) ++ '}' :: rest) =
                  some (other :: others, rest) :=
                ih (List.cons_ne_nil _ _) (fun x hx => hloads x (List.mem_cons_of_mem _ hx))
                  (by omega)
              rw [membersChars, List.append_assoc, List.cons_append, List.append_assoc,
                List.cons_append]
              obtain ⟨chars, hchars, hread⟩ := readString_quoted key
                (':' :: (value.jsonChars ++ ',' :: (membersChars (other :: others) ++
                  '}' :: rest)))
              rw [hchars, readMembers, skipSpace_cons (by decide)]
              simp only [hread, Option.bind_eq_bind, Option.bind_some, skipSpace_cons (by decide :
                isJsonSpace ':' = false)]
              rw [hvalue fuel _ (by omega) (by simp [isTokenChar])]
              simp only [Option.bind_some, skipSpace_cons (by decide : isJsonSpace ',' = false)]
              rw [hothers]
              rfl

/-- An array with items, at its bracket. -/
theorem readValue_bracket {c : Char} (hspace : isJsonSpace c = false) (hc : c ≠ ']')
    (fuel : Nat) (tail : List Char) :
    readValue (fuel + 1) ('[' :: c :: tail) =
      (readItems fuel (c :: tail)).map fun result => (.list result.1, result.2) := by
  rw [readValue, skipSpace_cons (by decide)]
  change (match skipSpace (c :: tail) with
    | ']' :: rest => some (Value.list [], rest)
    | rest => (readItems fuel rest).map fun result : List Value × List Char =>
        (Value.list result.1, result.2)) = _
  rw [skipSpace_cons hspace]
  split
  · rename_i heq
    exact absurd (List.cons.inj heq).1 hc
  · rfl

/-- An object with members, at its brace. -/
theorem readValue_brace (fuel : Nat) (tail : List Char) :
    readValue (fuel + 1) ('{' :: '"' :: tail) =
      (readMembers fuel ('"' :: tail)).map fun result =>
        (.dict (Dictionaries.ofItems result.1), result.2) := by
  rw [readValue, skipSpace_cons (by decide)]
  change (match skipSpace ('"' :: tail) with
    | '}' :: rest => some (Value.dict [], rest)
    | rest => (readMembers fuel rest).map fun result : List (String × Value) × List Char =>
        (Value.dict (Dictionaries.ofItems result.1), result.2)) = _
  rw [skipSpace_cons (by decide)]
  rfl

theorem loadsBack_list {items : List Value} (hloaded : ∀ item ∈ items, item.isLoaded = true)
    (hloads : ∀ item ∈ items, item.LoadsBack) : (Value.list items).LoadsBack := by
  intro fuel rest hfuel _
  cases fuel with
  | zero => cases hfuel
  | succ fuel =>
      rw [Value.jsonChars, List.length_cons, List.length_append] at hfuel
      rw [Value.jsonChars, List.cons_append, List.append_assoc]
      cases items with
      | nil => rfl
      | cons item others =>
          have hitem := hloaded item List.mem_cons_self
          have hread := readItems_itemsChars (List.cons_ne_nil item others) hloads
            (show _ < fuel by simp only [List.length_singleton] at hfuel; omega) rest
          obtain ⟨c, word, hword, hstart⟩ :=
            jsonChars_first (item.isJson_of_isLoaded hitem)
          have hchars : ∃ tail, itemsChars (item :: others) = c :: tail := by
            cases others with
            | nil => exact ⟨word, by rw [itemsChars, hword]⟩
            | cons other others => exact ⟨_, by rw [itemsChars, hword, List.cons_append]⟩
          obtain ⟨tail, htail⟩ := hchars
          rw [htail, List.cons_append] at hread ⊢
          rw [readValue_bracket hstart.isJsonSpace hstart.ne_bracket, List.singleton_append, hread,
            Option.map_some]

theorem loadsBack_dict {members : List (String × Value)}
    (hnodup : (members.map (·.1)).Nodup) (hloads : ∀ member ∈ members, member.2.LoadsBack) :
    (Value.dict members).LoadsBack := by
  intro fuel rest hfuel _
  cases fuel with
  | zero => cases hfuel
  | succ fuel =>
      rw [Value.jsonChars, List.length_cons, List.length_append] at hfuel
      rw [Value.jsonChars, List.cons_append, List.append_assoc]
      cases members with
      | nil => rfl
      | cons member others =>
          have hread := readMembers_membersChars (List.cons_ne_nil member others) hloads
            (show _ < fuel by simp only [List.length_singleton] at hfuel; omega) rest
          have hchars : ∃ tail, membersChars (member :: others) = '"' :: tail := by
            cases others with
            | nil => exact ⟨_, by rw [membersChars, quoted, List.cons_append]⟩
            | cons other others => exact ⟨_, by rw [membersChars, quoted, List.cons_append]⟩
          obtain ⟨tail, htail⟩ := hchars
          rw [htail, List.cons_append] at hread ⊢
          rw [readValue_brace, List.singleton_append, hread, Option.map_some,
            Dictionaries.ofItems_of_nodup hnodup]

/-- A value is read back from its text. -/
theorem loadsBack_of_isLoaded (value : Value) (h : value.isLoaded = true) :
    value.LoadsBack := by
  induction value using Value.induction with
  | scalar value hlist hdict =>
      cases value with
      | str s => exact loadsBack_str s
      | timestamp t => cases h
      | list items => exact absurd rfl (hlist items)
      | dict members => exact absurd rfl (hdict members)
      | null => exact loadsBack_token h rfl
      | bool b => exact loadsBack_token h rfl
      | int n => exact loadsBack_token h rfl
      | float token => exact loadsBack_token h rfl
  | list items ih =>
      rw [Value.isLoaded, itemsAreLoaded_iff] at h
      exact loadsBack_list h fun item hitem => ih item hitem (h item hitem)
  | dict members ih =>
      rw [Value.isLoaded, Bool.and_eq_true, membersAreLoaded_iff, decide_eq_true_eq] at h
      exact loadsBack_dict h.2 fun member hmember => ih member hmember (h.1 member hmember)

/-- `json.loads` reads back what `json.dumps` writes. -/
theorem jsonLoads_jsonText {value : Value} (h : value.isLoaded = true) :
    jsonLoads value.jsonText = some value := by
  have hread := loadsBack_of_isLoaded value h (value.jsonText.length + 1) []
    (by rw [Value.jsonText, String.length_ofList]; exact Nat.lt_succ_self _) (ends_nil _)
  rw [List.append_nil] at hread
  rw [jsonLoads, Value.jsonText, String.toList_ofList, ← Value.jsonText, hread]
  rfl

end RoundTrip

section Soundness

/-- A float has a point, an exponent or a word for an infinity or a NaN. -/
theorem isFloatText_eq_false {token : List Char} (h : ∀ c ∈ token, isIntChar c = true) :
    isFloatText token = false := by
  have htake : ∀ other : Char → Bool, (∀ c, other c = false → isIntChar c = false) →
      token.takeWhile other = token := by
    intro other hother
    have hall : ∀ c ∈ token, other c = true := by
      intro c hc
      cases hc' : other c with
      | true => rfl
      | false => exact absurd (h c hc) (by simp [hother c hc'])
    simpa using takeWhile_append hall (ends_nil other)
  have hword : ∀ word : List Char, (∃ c ∈ word, isIntChar c = false) →
      (token == word) = false := by
    rintro word ⟨c, hc, hnot⟩
    rw [beq_eq_false_iff_ne]
    rintro rfl
    rw [h c hc] at hnot
    cases hnot
  have hmantissa : token.takeWhile (fun c => c != 'e' && c != 'E') = token := by
    apply htake
    intro c hc
    simp only [Bool.and_eq_false_iff, bne_eq_false_iff_eq] at hc
    rcases hc with rfl | rfl <;> rfl
  have hwhole : token.takeWhile (· != '.') = token := by
    apply htake
    intro c hc
    rw [bne_eq_false_iff_eq.mp hc]
    rfl
  rw [isFloatText, hword _ ⟨'N', by decide, rfl⟩, hword _ ⟨'I', by decide, rfl⟩,
    hword _ ⟨'I', by decide, rfl⟩, hmantissa]
  dsimp only
  rw [hwhole, List.drop_length]
  simp

theorem isLoaded_of_loadToken {token : List Char} {value : Value}
    (hchars : ∀ c ∈ token, isTokenChar c = true) (h : loadToken token = some value) :
    value.isLoaded = true := by
  unfold loadToken at h
  split at h
  · cases h
    rfl
  · rename_i hnull
    split at h
    · cases h
      rfl
    · rename_i htrue
      split at h
      · cases h
        rfl
      · rename_i hfalse
        split at h
        · cases h
          rfl
        · split at h
          · rename_i hfloat
            cases h
            rw [Value.isLoaded, isFloatToken, String.toList_ofList, hfloat, Bool.and_true]
            have hany : token.any (fun c => !c.isDigit && c != '-') = true := by
              by_contra hnone
              rw [isFloatText_eq_false] at hfloat
              · cases hfloat
              · intro c hc
                rw [Bool.not_eq_true, List.any_eq_false] at hnone
                have hplain := hnone c hc
                simp only [Bool.and_eq_true, Bool.not_eq_true', bne_iff_ne, ne_eq, not_and,
                  not_not] at hplain
                rw [isIntChar, Bool.or_eq_true, beq_iff_eq]
                cases hdigit : c.isDigit with
                | true => exact Or.inl rfl
                | false => exact Or.inr (hplain hdigit)
            have hother : ∀ word : List Char, token ≠ word →
                (String.ofList token != String.ofList word) = true := by
              intro word hne
              rw [bne_iff_ne]
              exact fun heq => hne (String.ofList_inj.mp heq)
            rw [List.all_eq_true.mpr hchars, hany, Bool.true_and, Bool.true_and, Bool.and_eq_true,
              Bool.and_eq_true]
            exact ⟨⟨hother _ hnull, hother _ htrue⟩, hother _ hfalse⟩
          · cases h

/-- What is read is a value that `json.loads` can return. -/
theorem isLoaded_of_read (fuel : Nat) :
    (∀ chars value rest, readValue fuel chars = some (value, rest) → value.isLoaded = true) ∧
    (∀ chars items rest, readItems fuel chars = some (items, rest) →
      ∀ item ∈ items, item.isLoaded = true) ∧
    ∀ chars members rest, readMembers fuel chars = some (members, rest) →
      ∀ member ∈ members, member.2.isLoaded = true := by
  induction fuel with
  | zero => 
      refine ⟨?_, ?_, ?_⟩ 
      · intro chars value rest h
        simp [readValue] at h
      · intro chars value rest h
        simp [readItems] at h
      · intro chars value rest h
        simp [readMembers] at h
  | succ fuel ih =>
      obtain ⟨hvalue, hitems, hmembers⟩ := ih
      refine ⟨fun chars value rest h => ?_, fun chars items rest h => ?_,
        fun chars members rest h => ?_⟩
      · rw [readValue] at h
        split at h
        · obtain ⟨result, -, heq⟩ := Option.map_eq_some_iff.mp h
          cases heq
          rfl
        · split at h
          · cases h
            rfl
          · obtain ⟨result, hresult, heq⟩ := Option.map_eq_some_iff.mp h
            cases heq
            rw [Value.isLoaded, itemsAreLoaded_iff]
            exact hitems _ _ _ hresult
        · split at h
          · cases h
            rfl
          · obtain ⟨result, hresult, heq⟩ := Option.map_eq_some_iff.mp h
            cases heq
            rw [Value.isLoaded, Bool.and_eq_true, membersAreLoaded_iff, decide_eq_true_eq]
            exact ⟨fun member hmember => hmembers _ _ _ hresult member
              (Dictionaries.mem_ofItems hmember), Dictionaries.nodup_ofItems _⟩
        · obtain ⟨result, hresult, heq⟩ := Option.map_eq_some_iff.mp h
          cases heq
          exact isLoaded_of_loadToken (List.all_eq_true.mp List.all_takeWhile) hresult
      · rw [readItems] at h
        obtain ⟨⟨item, tail⟩, hitem, h⟩ := Option.bind_eq_some_iff.mp h
        dsimp only at h
        split at h
        · obtain ⟨⟨others, tail⟩, hothers, h⟩ := Option.bind_eq_some_iff.mp h
          cases h
          exact List.forall_mem_cons.mpr ⟨hvalue _ _ _ hitem, hitems _ _ _ hothers⟩
        · cases h
          exact List.forall_mem_singleton.mpr (hvalue _ _ _ hitem)
        · cases h
      · rw [readMembers] at h
        split at h
        · obtain ⟨⟨key, tail⟩, -, h⟩ := Option.bind_eq_some_iff.mp h
          dsimp only at h
          split at h
          · obtain ⟨⟨value, tail⟩, hmember, h⟩ := Option.bind_eq_some_iff.mp h
            dsimp only at h
            split at h
            · obtain ⟨⟨others, tail⟩, hothers, h⟩ := Option.bind_eq_some_iff.mp h
              cases h
              exact List.forall_mem_cons.mpr ⟨hvalue _ _ _ hmember, hmembers _ _ _ hothers⟩
            · cases h
              exact List.forall_mem_singleton.mpr (hvalue _ _ _ hmember)
            · cases h
          · cases h
        · cases h

/-- What `json.loads` accepts is well formed. -/
theorem isLoaded_of_jsonLoads {text : String} {value : Value} (h : jsonLoads text = some value) :
    value.isLoaded = true := by
  unfold jsonLoads at h
  split at h
  · rename_i other rest hread
    split at h
    · cases h
      exact (isLoaded_of_read _).1 _ _ _ hread
    · cases h
  · cases h

end Soundness

end FeatureStore
