/-
  MessageCatalog.Literal.Properties — one pass over the properties of an object literal.

  The scan emits each text under the path of its names, tagged with the depth at which
  it stands; the root is depth zero. Whatever is not a property with a string or an
  object for its value contributes nothing. Nothing here looks at the key grammar.
-/

import MessageCatalog.Key
import MessageCatalog.Limits
import MessageCatalog.Literal.Braces
import MessageCatalog.Literal.Quoted

namespace MessageCatalog.Literal

inductive Emission where
  | leaf (depth : Nat) (key value : Text)
  /-- An object below the deepest level allowed, left unread. -/
  | tooDeep (key : Text)
  deriving DecidableEq, Repr

/-! ## Names -/

/-- The body of a quoted name up to its closing quote or what ends the search for it:
a line feed, the end, or `budget` code points. -/
def nameEnd (q : Code) (budget : Nat) (t : Text) : Text :=
  match t, budget with
  | [], _ => []
  | c :: r, 0 => c :: r
  | c :: r, budget + 1 =>
    if c == q || c == '\n' then c :: r
    else if c == '\\' then nameEnd q (budget - 1) r.tail
    else nameEnd q budget r
termination_by t.length
decreasing_by all_goals simp; try omega

/-- What a name reader found, and what follows. -/
structure Name where
  name : Option Text
  rest : Text

/-- The name in quotes `q` whose body the text starts with; none if it is not closed or
is longer than allowed, and then past the string. -/
def quotedName (limits : Limits) (q : Code) (body : Text) : Name :=
  match nameEnd q limits.maxKeyLength body with
  | c :: r =>
    if c == q then
      let raw := body.upTo (c :: r)
      ⟨some ((unquote (q :: raw ++ [q])).getD raw), r⟩
    else ⟨none, skipString q body⟩
  | [] => ⟨none, skipString q body⟩

/-- The identifier that starts with `c`; none if it is longer than allowed. -/
def identifierName (limits : Limits) (c : Code) (r : Text) : Name :=
  let name := c :: r.takeWhile Key.continuesSegment
  ⟨if name.length ≤ max 1 limits.maxKeyLength then some name else none, r.dropWhile Key.continuesSegment⟩

def startsName (c : Code) : Bool := isNameQuote c || Key.startsSegment c

def readName (limits : Limits) (c : Code) (r : Text) : Name :=
  if isNameQuote c then quotedName limits c r else identifierName limits c r

theorem length_nameEnd_le (q : Code) (budget : Nat) (t : Text) : (nameEnd q budget t).length ≤ t.length := by
  fun_induction nameEnd q budget t <;> simp_all <;> omega

theorem length_readName_le (limits : Limits) (c : Code) (r : Text) : (readName limits c r).rest.length ≤ r.length := by
  unfold readName
  split
  · unfold quotedName
    have hn := length_nameEnd_le c limits.maxKeyLength r
    have hs := length_skipString_le c r
    split
    · rename_i h
      rw [h] at hn
      split
      · simp at *; omega
      · exact hs
    · exact hs
  · have := (List.dropWhile_sublist (l := r) Key.continuesSegment).length_le
    simpa [identifierName] using this

/-! ## Values -/

def joinStrings (limits : Limits) (value rest : Text) : Reading :=
  match _h₁ : skipTrivia rest with
  | [] => ⟨some value, rest⟩
  | c :: r =>
    if c == '+' then
      match _h₂ : skipTrivia r with
      | [] => ⟨none, rest⟩
      | q :: body =>
        if _hq : isQuote q = true then
          match _h₃ : readString (some limits.maxValueLength) (q :: body) with
          | ⟨some part, next⟩ =>
            if limits.maxValueLength < value.length + part.length then ⟨none, next⟩
            else joinStrings limits (value ++ part) next
          | ⟨none, next⟩ => ⟨none, next⟩
        else ⟨none, rest⟩
    else ⟨some value, rest⟩
termination_by rest.length
decreasing_by
  have h₁ := length_skipTrivia_le rest
  have h₂ := length_skipTrivia_le r
  have h₃ := length_readString_lt (some limits.maxValueLength) body _hq
  rw [_h₁] at h₁
  rw [_h₂] at h₂
  rw [_h₃] at h₃
  simp at *
  omega

def readValue (limits : Limits) (t : Text) : Reading :=
  match readString (some limits.maxValueLength) t with
  | ⟨none, rest⟩ => ⟨none, rest⟩
  | ⟨some value, rest⟩ => joinStrings limits value rest

def closerOf (c : Code) : Option Code :=
  if c == '(' then some (Char.toNat ')')
  else if c == '[' then some (Char.toNat ']')
  else if c == '{' then some (Char.toNat '}')
  else none

/-- Past the rest of a value and the comma, closing brace or line feed outside brackets
that ends it; a line comment ends it too. `closers` are the brackets still open, and
`budget` code points are looked at, strings and comments being taken whole. -/
def skipValue (closers : List Code) (budget : Nat) (t : Text) : Text :=
  match t, budget with
  | [], _ => []
  | c :: r, 0 => c :: r
  | c :: r, budget + 1 =>
    if isQuote c then
      skipValue closers (budget + 1 - (r.length + 1 - (skipString c r).length)) (skipString c r)
    else if h : opensComment c r = true then
      if closers.isEmpty && Text.headIs '/' r then c :: r
      else
        let s := skipTrivia (c :: r)
        skipValue closers (budget + 1 - (r.length + 1 - s.length)) s
    else
      match closerOf c with
      | some d => skipValue (d :: closers) budget r
      | none =>
        if closers.head? == some c then skipValue closers.tail budget r
        else if closers.isEmpty && (c == ',' || c == '}' || c == '\n') then r
        else skipValue closers budget r
termination_by t.length
decreasing_by
  · have := length_skipString_le c r; simp; omega
  · exact length_skipTrivia_lt h
  all_goals simp

theorem length_skipValue_le (closers : List Code) (budget : Nat) (t : Text) :
    (skipValue closers budget t).length ≤ t.length := by
  fun_induction skipValue closers budget t with
  | case1 | case2 | case4 => simp
  | case3 closers c r _ _ ih => have := length_skipString_le c r; simp; omega
  | case5 closers c r _ _ h _ s ih => have := length_skipTrivia_lt h; simp [s] at *; omega
  | case8 => simp
  | case6 _ _ _ _ _ _ _ _ ih | case7 _ _ _ _ _ _ _ _ ih | case9 _ _ _ _ _ _ _ _ _ ih => simp; omega

theorem length_joinStrings_le (limits : Limits) (value rest : Text) :
    (joinStrings limits value rest).rest.length ≤ rest.length := by
  fun_induction joinStrings limits value rest with
  | case1 | case2 | case6 | case7 => simp
  | case3 value rest c r h _ q body h' hq part next h'' _ | case5 value rest c r h _ q body h' hq next h'' =>
    have h₁ := length_skipTrivia_le rest
    have h₂ := length_skipTrivia_le r
    have h₃ := length_readString_lt (some limits.maxValueLength) body hq
    rw [h] at h₁
    rw [h'] at h₂
    rw [h''] at h₃
    simp at *
    omega
  | case4 value rest c r h _ q body h' hq part next h'' _ ih =>
    have h₁ := length_skipTrivia_le rest
    have h₂ := length_skipTrivia_le r
    have h₃ := length_readString_lt (some limits.maxValueLength) body hq
    rw [h] at h₁
    rw [h'] at h₂
    rw [h''] at h₃
    simp at *
    omega

theorem length_readValue_lt (limits : Limits) (body : Text) {q : Code} (hq : isQuote q = true) :
    (readValue limits (q :: body)).rest.length < (q :: body).length := by
  have h := length_readString_lt (some limits.maxValueLength) body hq
  unfold readValue
  split
  · rename_i e; rw [e] at h; exact h
  · rename_i value rest e
    rw [e] at h
    exact Nat.lt_of_le_of_lt (length_joinStrings_le limits value rest) h

/-! ## The scan -/

/-- What the front of a text holds. -/
inductive Front where
  | nothing
  /-- No property; look again at `rest`. -/
  | noise (rest : Text)
  /-- A property; its value starts with `c`. -/
  | property (name : Text) (c : Code) (rest : Text)

def front (limits : Limits) (t : Text) : Front :=
  match skipTrivia t with
  | [] => .nothing
  | c :: r =>
    if startsName c then
      let named := readName limits c r
      match named.name with
      | none => .noise named.rest
      | some name =>
        match skipTrivia named.rest with
        | [] => .noise named.rest
        | d :: s =>
          if d == ':' then
            match skipTrivia s with
            | [] => .nothing
            | e :: v => .property name e v
          else .noise named.rest
    else .noise r

theorem length_front_noise_lt {limits : Limits} {t rest : Text} (h : front limits t = .noise rest) :
    rest.length < t.length := by
  have ht := length_skipTrivia_le t
  unfold front at h
  split at h
  · cases h
  · rename_i c r e
    have hn := length_readName_le limits c r
    rw [e] at ht
    simp only [List.length_cons] at ht
    split at h
    · dsimp only at h
      repeat' split at h
      all_goals cases h <;> omega
    · cases h; omega

theorem length_front_property_lt {limits : Limits} {t name rest : Text} {c : Code}
    (h : front limits t = .property name c rest) : rest.length + 1 < t.length := by
  have ht := length_skipTrivia_le t
  unfold front at h
  split at h
  · cases h
  · rename_i c r e
    have hn := length_readName_le limits c r
    have h₂ := length_skipTrivia_le (readName limits c r).rest
    rw [e] at ht
    simp only [List.length_cons] at ht
    split at h
    · dsimp only at h
      split at h
      · cases h
      · split at h
        · cases h
        · rename_i d s e₂
          have h₃ := length_skipTrivia_le s
          rw [e₂] at h₂
          simp only [List.length_cons] at h₂
          split at h
          · split at h
            · cases h
            · rename_i e₃
              rw [e₃] at h₃
              cases h
              simp only [List.length_cons] at h₃
              omega
          · cases h
    · cases h

/-- What the properties in a text emit. `base` is the path of the object they belong to,
`depth` its level. -/
def scan (limits : Limits) (base : Text) (depth : Nat) (t : Text) : List Emission :=
  match _h : front limits t with
  | .nothing => []
  | .noise rest => scan limits base depth rest
  | .property name c r =>
    let key := Key.under base name
    if c == '{' then
      match _hc : closingBrace 1 r with
      | none => []
      | some close =>
        (if limits.maxDepth < depth + 1 then [.tooDeep key] else scan limits key (depth + 1) (Text.upTo r close))
          ++ scan limits base depth close.tail
    else if _hq : isQuote c = true then
      let reading := readValue limits (c :: r)
      (reading.value.map (Emission.leaf depth key)).toList
        ++ scan limits base depth (skipValue [] limits.maxValueLength reading.rest)
    else scan limits base depth (skipValue [] limits.maxValueLength (c :: r))
termination_by t.length
decreasing_by
  · exact length_front_noise_lt _h
  · have := length_front_property_lt _h
    simp only [Text.upTo, List.length_take]
    omega
  · have := length_front_property_lt _h
    have := length_closingBrace_le _hc
    simp only [List.length_tail]
    omega
  · have := length_front_property_lt _h
    have := length_readValue_lt limits r _hq
    have := length_skipValue_le [] limits.maxValueLength (readValue limits (c :: r)).rest
    simp only [List.length_cons] at *
    omega
  · have := length_front_property_lt _h
    have := length_skipValue_le [] limits.maxValueLength (c :: r)
    simp only [List.length_cons] at *
    omega

end MessageCatalog.Literal
