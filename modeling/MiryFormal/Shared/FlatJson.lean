import Mathlib

/-!
# JSON objects without nested values, and their lines

What a line of such objects, one a line, may be made of. Strings and values are described no
further than a scan needs that only tells strings from what stands between them. The scan
shows that an object cannot begin inside another one that is not finished.
-/

namespace MiryFormal.FlatJson

set_option autoImplicit false

abbrev Text := List UInt8

def newline : UInt8 := 10
def quote : UInt8 := 34
def comma : UInt8 := 44
def colon : UInt8 := 58
def backslash : UInt8 := 92
def openBrace : UInt8 := 123
def closeBrace : UInt8 := 125

def isSpace (b : UInt8) : Bool := b = 32 ∨ b = 9 ∨ b = newline ∨ b = 13

/-- The bytes of numbers and of `true`, `false` and `null`. -/
def isBare (b : UInt8) : Bool :=
  48 ≤ b ∧ b ≤ 57 ∨ 97 ≤ b ∧ b ≤ 122 ∨ 65 ≤ b ∧ b ≤ 90 ∨ b = 43 ∨ b = 45 ∨ b = 46

/-- What may follow a string. -/
def endsString (b : UInt8) : Bool := b = closeBrace ∨ isSpace b ∨ b = colon ∨ b = comma

/-! ## Grammar -/

def Space (text : Text) : Prop := ∀ b ∈ text, isSpace b

/-- What stands between the quotes of a string. -/
inductive Body : Text → Prop where
  | nil : Body []
  | plain {b : UInt8} {rest : Text} : b ≠ quote → b ≠ backslash → Body rest → Body (b :: rest)
  | escape (b : UInt8) {rest : Text} : Body rest → Body (backslash :: b :: rest)

inductive Value : Text → Prop where
  | string {body : Text} : Body body → Value (quote :: (body ++ [quote]))
  | bare {text : Text} : text ≠ [] → (∀ b ∈ text, isBare b) → Value text

/-- `"key": value` -/
inductive Member : Text → Prop where
  | mk {a b c d key value : Text} : Space a → Body key → Space b → Space c → Value value →
      Space d → Member (a ++ quote :: (key ++ quote :: (b ++ colon :: (c ++ (value ++ d)))))

inductive Members : Text → Prop where
  | last {text : Text} : Member text → Members text
  | more {text rest : Text} : Member text → Members rest → Members (text ++ comma :: rest)

/-- An object whose values are strings, numbers and literals. -/
inductive FlatObject : Text → Prop where
  | empty {a b c : Text} : Space a → Space b → Space c →
      FlatObject (a ++ openBrace :: (b ++ closeBrace :: c))
  | members {a inside c : Text} : Space a → Members inside → Space c →
      FlatObject (a ++ openBrace :: (inside ++ closeBrace :: c))

theorem FlatObject.space {text space : Text} (h : FlatObject text) (hspace : Space space) :
    FlatObject (text ++ space) := by
  cases h with
  | empty ha hb hc =>
    rw [List.append_assoc, List.cons_append, List.append_assoc, List.cons_append]
    exact .empty ha hb (List.forall_mem_append.mpr ⟨hc, hspace⟩)
  | members ha hinside hc =>
    rw [List.append_assoc, List.cons_append, List.append_assoc, List.cons_append]
    exact .members ha hinside (List.forall_mem_append.mpr ⟨hc, hspace⟩)

/-! ## Scan -/

inductive Scan where
  | start
  | inside
  | inString
  | escaped
  | afterString
  | done
  deriving DecidableEq

def step : Scan → UInt8 → Option Scan
  | .start, b => if isSpace b then some .start else if b = openBrace then some .inside else none
  | .inside, b =>
      if b = quote then some .inString
      else if b = closeBrace then some .done
      else if b = openBrace then none
      else some .inside
  | .inString, b =>
      if b = quote then some .afterString
      else if b = backslash then some .escaped
      else some .inString
  | .escaped, _ => some .inString
  | .afterString, b =>
      if b = closeBrace then some .done
      else if endsString b then some .inside
      else none
  | .done, b => if isSpace b then some .done else none

def scan (state : Scan) (text : Text) : Option Scan := text.foldlM step state

theorem scan_append (state : Scan) (a b : Text) :
    scan state (a ++ b) = (scan state a).bind fun next => scan next b :=
  List.foldlM_append

theorem scan_cons (state : Scan) (b : UInt8) (text : Text) :
    scan state (b :: text) = (step state b).bind fun next => scan next text :=
  List.foldlM_cons

theorem scan_through {state next : Scan} {a b : Text} (h : scan state a = some next) :
    scan state (a ++ b) = scan next b := by
  rw [scan_append, h]
  rfl

theorem scan_step {state next : Scan} {b : UInt8} {text : Text} (h : step state b = some next) :
    scan state (b :: text) = scan next text := by
  rw [scan_cons, h]
  rfl

/-- What a scan gets through, it gets through in parts. -/
theorem scan_split {state last : Scan} {a b : Text} (h : scan state (a ++ b) = some last) :
    ∃ next, scan state a = some next ∧ scan next b = some last := by
  rw [scan_append] at h
  exact Option.bind_eq_some_iff.mp h

section Grammar
variable {text : Text}

theorem isSpace_ne {b : UInt8} (h : isSpace b = true) :
    b ≠ quote ∧ b ≠ closeBrace ∧ b ≠ openBrace := by
  refine ⟨?_, ?_, ?_⟩ <;> rintro rfl <;> exact absurd h (by decide)

theorem isBare_ne {b : UInt8} (h : isBare b = true) :
    b ≠ quote ∧ b ≠ closeBrace ∧ b ≠ openBrace := by
  refine ⟨?_, ?_, ?_⟩ <;> rintro rfl <;> exact absurd h (by decide)

theorem scan_stays {state : Scan} (h : ∀ b ∈ text, step state b = some state) :
    scan state text = some state := by
  induction text with
  | nil => rfl
  | cons b text ih =>
    rw [scan_step (h b List.mem_cons_self)]
    exact ih fun later hm => h later (List.mem_cons_of_mem _ hm)

theorem Space.scan_start (h : Space text) : scan .start text = some .start :=
  scan_stays fun b hm => if_pos (h b hm)

theorem Space.scan_done (h : Space text) : scan .done text = some .done :=
  scan_stays fun b hm => if_pos (h b hm)

theorem Space.scan_inside (h : Space text) : scan .inside text = some .inside := by
  apply scan_stays
  intro b hm
  obtain ⟨hquote, hclose, hopen⟩ := isSpace_ne (h b hm)
  simp only [step, if_neg hquote, if_neg hclose, if_neg hopen]

/-- Between two tokens: a string may end here or not. -/
def Settled (state : Scan) : Prop := state = .inside ∨ state = .afterString

theorem Space.scan_settled (h : Space text) {state : Scan} (hstate : Settled state) :
    ∃ next, Settled next ∧ scan state text = some next := by
  cases hstate with
  | inl heq =>
    subst heq
    exact ⟨.inside, .inl rfl, h.scan_inside⟩
  | inr heq =>
    subst heq
    cases text with
    | nil => exact ⟨.afterString, .inr rfl, rfl⟩
    | cons b text =>
      have hspace := h b List.mem_cons_self
      have hstep : step .afterString b = some .inside := by
        simp [step, endsString, (isSpace_ne hspace).2.1, hspace]
      refine ⟨.inside, .inl rfl, ?_⟩
      rw [scan_step hstep]
      exact Space.scan_inside fun later hm => h later (List.mem_cons_of_mem _ hm)

theorem Settled.colon {state : Scan} (h : Settled state) :
    step state FlatJson.colon = some .inside := by
  cases h with
  | inl heq => subst heq; rfl
  | inr heq => subst heq; rfl

theorem Settled.comma {state : Scan} (h : Settled state) :
    step state FlatJson.comma = some .inside := by
  cases h with
  | inl heq => subst heq; rfl
  | inr heq => subst heq; rfl

theorem Settled.close {state : Scan} (h : Settled state) : step state closeBrace = some .done := by
  cases h with
  | inl heq => subst heq; rfl
  | inr heq => subst heq; rfl

theorem Body.scan {body : Text} (h : Body body) (rest : Text) :
    FlatJson.scan .inString (body ++ quote :: rest) = FlatJson.scan .afterString rest := by
  induction h with
  | nil => exact scan_step rfl
  | @plain b body hquote hbackslash _ ih =>
    have hstep : step .inString b = some .inString := by
      rw [step, if_neg hquote, if_neg hbackslash]
    rw [List.cons_append, scan_step hstep]
    exact ih
  | escape b _ ih =>
    rw [List.cons_append, List.cons_append, scan_step rfl, scan_step rfl]
    exact ih

theorem Value.scan {value : Text} (h : Value value) :
    ∃ next, Settled next ∧ FlatJson.scan .inside value = some next := by
  cases h with
  | string hbody =>
    refine ⟨.afterString, .inr rfl, ?_⟩
    rw [scan_step rfl, hbody.scan]
    rfl
  | bare _ hbare =>
    refine ⟨.inside, .inl rfl, scan_stays fun b hm => ?_⟩
    obtain ⟨hquote, hclose, hopen⟩ := isBare_ne (hbare b hm)
    simp only [step, if_neg hquote, if_neg hclose, if_neg hopen]

theorem Member.scan {member : Text} (h : Member member) :
    ∃ next, Settled next ∧ FlatJson.scan .inside member = some next := by
  cases h with
  | mk ha hkey hb hc hvalue hd =>
    obtain ⟨key, hkeyed, hb⟩ := hb.scan_settled (.inr rfl)
    obtain ⟨value, hvalued, hvalue⟩ := hvalue.scan
    obtain ⟨next, hnext, hd⟩ := hd.scan_settled hvalued
    refine ⟨next, hnext, ?_⟩
    rw [scan_through ha.scan_inside, scan_step rfl, hkey.scan, scan_through hb,
      scan_step hkeyed.colon, scan_through hc.scan_inside, scan_through hvalue]
    exact hd

theorem Members.scan {members : Text} (h : Members members) :
    ∃ next, Settled next ∧ FlatJson.scan .inside members = some next := by
  induction h with
  | last h => exact h.scan
  | more h _ ih =>
    obtain ⟨member, hsettled, hmember⟩ := h.scan
    obtain ⟨next, hnext, hrest⟩ := ih
    refine ⟨next, hnext, ?_⟩
    rw [scan_through hmember, scan_step hsettled.comma]
    exact hrest

theorem FlatObject.scan (h : FlatObject text) : FlatJson.scan .start text = some .done := by
  cases h with
  | empty ha hb hc =>
    rw [scan_through ha.scan_start, scan_step rfl, scan_through hb.scan_inside, scan_step rfl]
    exact hc.scan_done
  | members ha hinside hc =>
    obtain ⟨next, hsettled, hinside⟩ := hinside.scan
    rw [scan_through ha.scan_start, scan_step rfl, scan_through hinside,
      scan_step hsettled.close]
    exact hc.scan_done

end Grammar

/-! ## Objects that are not finished -/

/-- Beginnings of objects, one behind the other: a brace, a brace and a quote, or more, where what
follows the first byte of a key is free. -/
inductive Beginnings : Text → Prop where
  | nil : Beginnings []
  | brace {rest : Text} : Beginnings rest → Beginnings (openBrace :: rest)
  | quoted {rest : Text} : Beginnings rest → Beginnings (openBrace :: quote :: rest)
  | keyed {b : UInt8} {rest : Text} : endsString b = false →
      Beginnings (openBrace :: quote :: b :: rest)

theorem Beginnings.eq_nil_or_brace {text : Text} (h : Beginnings text) :
    text = [] ∨ ∃ rest, text = openBrace :: rest := by
  cases h with
  | nil => exact .inl rfl
  | brace _ => exact .inr ⟨_, rfl⟩
  | quoted _ => exact .inr ⟨_, rfl⟩
  | keyed _ => exact .inr ⟨_, rfl⟩

/-- Outside of a string no object may start. -/
theorem scan_openBrace {state : Scan} (hstart : state ≠ .start) (hstring : state ≠ .inString)
    (hescaped : state ≠ .escaped) (rest : Text) : scan state (openBrace :: rest) = none := by
  cases state with
  | start => exact absurd rfl hstart
  | inString => exact absurd rfl hstring
  | escaped => exact absurd rfl hescaped
  | inside => rfl
  | afterString => rfl
  | done => rfl

theorem scan_afterString {b : UInt8} (h : endsString b = false) (rest : Text) :
    scan .afterString (b :: rest) = none := by
  have hclose : b ≠ closeBrace := by
    intro heq
    subst heq
    cases h
  have hstep : step .afterString b = none := by
    simp [step, hclose, h]
  rw [scan_cons, hstep]
  rfl

/-- Inside a string, the first quote of what follows ends the string, and no key may follow. -/
theorem Beginnings.scan_inString {text : Text} (h : Beginnings text) :
    scan .inString text ≠ some .done := by
  induction h with
  | nil => nofun
  | brace _ ih =>
    rw [scan_step rfl]
    exact ih
  | quoted hrest _ =>
    rw [scan_step rfl, scan_step rfl]
    cases hrest.eq_nil_or_brace with
    | inl heq =>
      subst heq
      nofun
    | inr heq =>
      obtain ⟨rest, rfl⟩ := heq
      intro hscan
      cases hscan
  | keyed hfree =>
    rw [scan_step rfl, scan_step rfl]
    intro hscan
    cases (scan_afterString hfree _).symm.trans hscan

/-- From inside an object, beginnings of others never lead to its end. -/
theorem Beginnings.scan_open {text : Text} (h : Beginnings text) {state : Scan}
    (hstart : state ≠ .start) (hdone : state ≠ .done) : scan state text ≠ some .done := by
  cases h.eq_nil_or_brace with
  | inl heq =>
    subst heq
    intro hscan
    exact hdone (Option.some.inj hscan)
  | inr heq =>
    obtain ⟨rest, rfl⟩ := heq
    by_cases hstring : state = .inString
    · subst hstring
      exact h.scan_inString
    · by_cases hescaped : state = .escaped
      · -- an escape takes the brace as the string itself would
        subst hescaped
        exact h.scan_inString
      · rw [scan_openBrace hstart hstring hescaped]
        nofun

theorem step_start {state : Scan} {b : UInt8} (h : step state b = some .start) :
    state = .start := by
  unfold step at h
  split at h
  · rfl
  all_goals
    repeat' split at h
    all_goals cases h

theorem scan_start {state : Scan} {text : Text} (h : scan state text = some .start) :
    state = .start := by
  induction text generalizing state with
  | nil => exact Option.some.inj h
  | cons b text ih =>
    rw [scan_cons] at h
    obtain ⟨next, hstep, hrest⟩ := Option.bind_eq_some_iff.mp h
    rw [ih hrest] at hstep
    exact step_start hstep

theorem space_of_scan_done {text : Text} {last : Scan} (h : scan .done text = some last) :
    Space text := by
  induction text with
  | nil => nofun
  | cons b text ih =>
    rw [scan_cons] at h
    obtain ⟨next, hstep, hrest⟩ := Option.bind_eq_some_iff.mp h
    by_cases hspace : isSpace b = true
    · rw [step, if_pos hspace] at hstep
      cases hstep
      exact List.forall_mem_cons.mpr ⟨hspace, ih hrest⟩
    · rw [step, if_neg hspace] at hstep
      cases hstep

/-- An object as it is written: from brace to brace. -/
structure Compact (text : Text) : Prop where
  object : FlatObject text
  opens : text.head? = some openBrace
  closes : text.getLast? = some closeBrace

/-- A part of an object that is cut off before its end leaves the scan inside it. -/
theorem Compact.scan_part {part rest : Text} (h : Compact (part ++ rest)) (hpart : part ≠ [])
    (hrest : rest ≠ []) :
    ∃ state, scan .start part = some state ∧ state ≠ .start ∧ state ≠ .done := by
  obtain ⟨state, hscan, hlast⟩ := scan_split h.object.scan
  refine ⟨state, hscan, fun heq => ?_, fun heq => ?_⟩
  · subst heq
    cases part with
    | nil => exact hpart rfl
    | cons b part =>
      cases h.opens
      cases scan_start ((scan_step rfl).symm.trans hscan)
  · subst heq
    have hclose := h.closes
    rw [List.getLast?_append_of_ne_nil _ hrest] at hclose
    have hspace := space_of_scan_done hlast closeBrace (List.mem_of_getLast? hclose)
    cases hspace

/-- A torn object is none, whatever objects begin behind it. -/
theorem Compact.torn {part rest later : Text} (h : Compact (part ++ rest)) (hpart : part ≠ [])
    (hrest : rest ≠ []) (hlater : Beginnings later) : ¬ FlatObject (part ++ later) := by
  intro hobject
  obtain ⟨state, hscan, hstart, hdone⟩ := h.scan_part hpart hrest
  have hend := hobject.scan
  rw [scan_through hscan] at hend
  exact hlater.scan_open hstart hdone hend

/-- Neither is an object with another one behind it. -/
theorem Compact.joined {text later : Text} (h : Compact text) (hlater : Beginnings later)
    (hne : later ≠ []) : ¬ FlatObject (text ++ later) := by
  intro hobject
  have hend := hobject.scan
  rw [scan_through h.object.scan] at hend
  cases hlater.eq_nil_or_brace with
  | inl heq => exact hne heq
  | inr heq =>
    obtain ⟨rest, rfl⟩ := heq
    cases hend

/-! ## Writing -/

def hexDigit (value : Nat) : UInt8 := UInt8.ofNat (if value < 10 then 48 + value else 87 + value)

/-- A byte of a string: quotes, backslashes and control characters are escaped. -/
def writeByte (b : UInt8) : Text :=
  if b = quote then [backslash, quote]
  else if b = backslash then [backslash, backslash]
  else if b = 8 then [backslash, 98]
  else if b = 9 then [backslash, 116]
  else if b = newline then [backslash, 110]
  else if b = 12 then [backslash, 102]
  else if b = 13 then [backslash, 114]
  else if b < 32 then
    [backslash, 117, 48, 48, hexDigit (b.toNat / 16), hexDigit (b.toNat % 16)]
  else [b]

def writeBody (text : String) : Text :=
  (text.toList.flatMap String.utf8EncodeChar).flatMap writeByte

def writeString (text : String) : Text := quote :: (writeBody text ++ [quote])

def writeNat (value : Nat) : Text := (Nat.toDigits 10 value).map fun c => UInt8.ofNat c.toNat

def writeMember (member : String × Text) : Text := writeString member.1 ++ colon :: member.2

def writeMembers (first : String × Text) : List (String × Text) → Text
  | [] => writeMember first
  | second :: members => writeMember first ++ comma :: writeMembers second members

/-- An object with no space in it, its members in the order that is given. -/
def writeObject (first : String × Text) (members : List (String × Text)) : Text :=
  openBrace :: (writeMembers first members ++ [closeBrace])

theorem hexDigit_plain (value : Nat) (h : value < 16) :
    hexDigit value ≠ quote ∧ hexDigit value ≠ backslash ∧ hexDigit value ≠ newline := by
  interval_cases value <;> decide

theorem body_writeByte (b : UInt8) {rest : Text} (h : Body rest) : Body (writeByte b ++ rest) := by
  unfold writeByte
  by_cases hquote : b = quote
  · rw [if_pos hquote]
    exact .escape _ h
  by_cases hbackslash : b = backslash
  · rw [if_neg hquote, if_pos hbackslash]
    exact .escape _ h
  rw [if_neg hquote, if_neg hbackslash]
  split_ifs
  iterate 5 exact .escape _ h
  · have hhigh := hexDigit_plain (b.toNat / 16) (by have := b.toNat_lt; omega)
    have hlow := hexDigit_plain (b.toNat % 16) (by omega)
    apply Body.escape
    apply Body.plain (by decide) (by decide)
    apply Body.plain (by decide) (by decide)
    apply Body.plain hhigh.1 hhigh.2.1
    exact .plain hlow.1 hlow.2.1 h
  · exact .plain hquote hbackslash h

theorem newline_notMem_writeByte (b : UInt8) : newline ∉ writeByte b := by
  unfold writeByte
  split_ifs with _ _ _ _ hnewline
  iterate 7 decide
  · have hhigh := hexDigit_plain (b.toNat / 16) (by have := b.toNat_lt; omega)
    have hlow := hexDigit_plain (b.toNat % 16) (by omega)
    simp only [List.mem_cons, List.not_mem_nil, or_false, not_or]
    exact ⟨by decide, by decide, by decide, by decide, Ne.symm hhigh.2.2, Ne.symm hlow.2.2⟩
  · rw [List.mem_singleton]
    exact Ne.symm hnewline

theorem body_writeBody (text : String) : Body (writeBody text) := by
  unfold writeBody
  induction text.toList.flatMap String.utf8EncodeChar with
  | nil => exact .nil
  | cons b bytes ih => exact body_writeByte b ih

theorem value_writeString (text : String) : Value (writeString text) :=
  .string (body_writeBody text)

theorem newline_notMem_writeString (text : String) : newline ∉ writeString text := by
  intro hm
  rw [writeString, List.mem_cons, List.mem_append, List.mem_singleton] at hm
  rcases hm with hquote | hbody | hquote
  · cases hquote
  · obtain ⟨b, -, hb⟩ := List.mem_flatMap.mp hbody
    exact newline_notMem_writeByte b hb
  · cases hquote

theorem isBare_digit {c : Char} (h : c.isDigit = true) : isBare (UInt8.ofNat c.toNat) = true := by
  have hdigit : 48 ≤ c.toNat ∧ c.toNat ≤ 57 := by
    unfold Char.isDigit at h
    rw [Bool.and_eq_true, decide_eq_true_eq, decide_eq_true_eq] at h
    exact ⟨UInt32.le_iff_toNat_le.mp h.1, UInt32.le_iff_toNat_le.mp h.2⟩
  obtain ⟨hlow, hhigh⟩ := hdigit
  generalize c.toNat = code at hlow hhigh ⊢
  interval_cases code <;> rfl

theorem value_writeNat (value : Nat) : Value (writeNat value) := by
  apply Value.bare
  · simp [writeNat]
  · intro b hm
    obtain ⟨c, hc, rfl⟩ := List.mem_map.mp hm
    exact isBare_digit (Nat.isDigit_of_mem_toDigits (by decide) (by decide) hc)

theorem newline_notMem_writeNat (value : Nat) : newline ∉ writeNat value := by
  intro hm
  obtain ⟨c, hc, heq⟩ := List.mem_map.mp hm
  have hbare := isBare_digit (Nat.isDigit_of_mem_toDigits (by decide) (by decide) hc)
  rw [heq] at hbare
  cases hbare

theorem space_nil : Space [] := nofun

theorem member_writeMember {member : String × Text} (h : Value member.2) :
    Member (writeMember member) := by
  have hmember := Member.mk space_nil (body_writeBody member.1) space_nil space_nil h space_nil
  simpa [writeMember, writeString] using hmember

theorem members_writeMembers {first : String × Text} {members : List (String × Text)}
    (hfirst : Value first.2) (h : ∀ member ∈ members, Value member.2) :
    Members (writeMembers first members) := by
  induction members generalizing first with
  | nil => exact .last (member_writeMember hfirst)
  | cons second members ih =>
    exact .more (member_writeMember hfirst) (ih (h second List.mem_cons_self)
      fun member hm => h member (List.mem_cons_of_mem _ hm))

theorem compact_writeObject {first : String × Text} {members : List (String × Text)}
    (hfirst : Value first.2) (h : ∀ member ∈ members, Value member.2) :
    Compact (writeObject first members) := by
  refine ⟨?_, rfl, ?_⟩
  · exact .members space_nil (members_writeMembers hfirst h) space_nil
  · rw [writeObject, ← List.cons_append, List.getLast?_concat]

theorem newline_notMem_writeMember {member : String × Text} (h : newline ∉ member.2) :
    newline ∉ writeMember member := by
  intro hm
  rw [writeMember, List.mem_append, List.mem_cons] at hm
  rcases hm with hkey | hcolon | hvalue
  · exact newline_notMem_writeString _ hkey
  · cases hcolon
  · exact h hvalue

theorem newline_notMem_writeMembers {first : String × Text} {members : List (String × Text)}
    (hfirst : newline ∉ first.2) (h : ∀ member ∈ members, newline ∉ member.2) :
    newline ∉ writeMembers first members := by
  induction members generalizing first with
  | nil => exact newline_notMem_writeMember hfirst
  | cons second members ih =>
    intro hm
    rw [writeMembers, List.mem_append, List.mem_cons] at hm
    rcases hm with hm | hcomma | hm
    · exact newline_notMem_writeMember hfirst hm
    · cases hcomma
    · exact ih (h second List.mem_cons_self)
        (fun member hm => h member (List.mem_cons_of_mem _ hm)) hm

theorem newline_notMem_writeObject {first : String × Text} {members : List (String × Text)}
    (hfirst : newline ∉ first.2) (h : ∀ member ∈ members, newline ∉ member.2) :
    newline ∉ writeObject first members := by
  intro hm
  rw [writeObject, List.mem_cons, List.mem_append, List.mem_singleton] at hm
  rcases hm with hopen | hm | hclose
  · cases hopen
  · exact newline_notMem_writeMembers hfirst h hm
  · cases hclose

/-- What is left of an object that begins with a key, in front of other beginnings. -/
theorem Beginnings.take {text rest : Text} {b : UInt8} (hb : endsString b = false)
    (hrest : Beginnings rest) :
    ∀ count, Beginnings ((openBrace :: FlatJson.quote :: b :: text).take count ++ rest)
  | 0 => hrest
  | 1 => .brace hrest
  | 2 => .quoted hrest
  | _ + 3 => .keyed hb

/-! ## Lines -/

/-- The lines of a file, each with its line break; the last one may have none. -/
def lines : Text → List Text
  | [] => []
  | b :: text =>
      if b = newline then [b] :: lines text
      else
        match lines text with
        | [] => [[b]]
        | line :: more => (b :: line) :: more

def firstLine (text : Text) : Text := (lines text).head?.getD []

theorem lines_cons {b : UInt8} (h : b ≠ newline) (text : Text) :
    lines (b :: text) = (b :: firstLine text) :: (lines text).tail := by
  rw [lines, if_neg h, firstLine]
  cases lines text with
  | nil => rfl
  | cons line more => rfl

theorem lines_append {part : Text} (hpart : part ≠ []) (h : newline ∉ part) (text : Text) :
    lines (part ++ text) = (part ++ firstLine text) :: (lines text).tail := by
  induction part with
  | nil => exact absurd rfl hpart
  | cons b part ih =>
    rw [List.mem_cons, not_or] at h
    rw [List.cons_append, lines_cons (Ne.symm h.1), List.cons_append]
    by_cases hnil : part = []
    · subst hnil
      rfl
    · rw [firstLine, ih hnil h.2]
      rfl

theorem lines_line {part : Text} (h : newline ∉ part) (text : Text) :
    lines (part ++ newline :: text) = (part ++ [newline]) :: lines text := by
  by_cases hnil : part = []
  · subst hnil
    exact if_pos rfl
  · have hlines : lines (newline :: text) = [newline] :: lines text := if_pos rfl
    rw [lines_append hnil h, firstLine, hlines]
    rfl

theorem firstLine_cons {b : UInt8} (h : b ≠ newline) (text : Text) :
    firstLine (b :: text) = b :: firstLine text := by
  rw [firstLine, lines_cons h]
  rfl

/-- The first line of beginnings are beginnings. -/
theorem Beginnings.firstLine {text : Text} (h : Beginnings text) :
    Beginnings (FlatJson.firstLine text) := by
  have hbrace : openBrace ≠ newline := by decide
  have hquote : FlatJson.quote ≠ newline := by decide
  induction h with
  | nil => exact .nil
  | brace _ ih =>
    rw [firstLine_cons hbrace]
    exact .brace ih
  | quoted _ ih =>
    rw [firstLine_cons hbrace, firstLine_cons hquote]
    exact .quoted ih
  | keyed hfree =>
    have hb : ∀ b, endsString b = false → b ≠ newline := by
      intro b hb heq
      subst heq
      cases hb
    rw [firstLine_cons hbrace, firstLine_cons hquote, firstLine_cons (hb _ hfree)]
    exact .keyed hfree

theorem Beginnings.firstLine_ne {text : Text} (h : Beginnings text) (hne : text ≠ []) :
    FlatJson.firstLine text ≠ [] := by
  cases h.eq_nil_or_brace with
  | inl heq => exact absurd heq hne
  | inr heq =>
    obtain ⟨rest, rfl⟩ := heq
    rw [firstLine_cons (by decide)]
    exact List.cons_ne_nil _ _

end MiryFormal.FlatJson
