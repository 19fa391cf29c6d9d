import Mathlib.Data.List.TakeWhile
import RayCompiler.Proofs.Listing.Symbols

namespace RayCompiler

namespace Text

-- The value of a digit in a base up to 16.
def digit? (base : Nat) (c : Char) : Option Nat := ("0123456789abcdef".toList.take base).idxOf? c

-- The number that digits stand for, the highest one first.
def ofDigits? (base : Nat) (text : List Char) : Option Nat :=
  if text.isEmpty then none
  else text.foldlM (fun number c => (digit? base c).map (number * base + ·)) 0

-- A decimal number with its sign.
def integer? : List Char → Option Int
  | '-' :: digits => (ofDigits? 10 digits).map fun number => -(number : Int)
  | digits => (ofDigits? 10 digits).map Int.ofNat

theorem digit?_digitChar {base digit : Nat} (hbase : base ≤ 16) (h : digit < base) :
    digit? base (Nat.digitChar digit) = some digit := by
  have hall : ∀ base ≤ 16, ∀ digit < base, digit? base (Nat.digitChar digit) = some digit := by
    decide
  exact hall base hbase digit h

theorem ofDigits?_toDigits {base : Nat} (hone : 1 < base) (hbase : base ≤ 16) (number : Nat) :
    ofDigits? base (Nat.toDigits base number) = some number := by
  rw [ofDigits?, if_neg (by simp)]
  induction number using Nat.strongRecOn with
  | ind number ih =>
      rw [Nat.toDigits_eq_if hone]
      by_cases hlt : number < base
      · rw [if_pos hlt]
        simp [digit?_digitChar hbase hlt]
      · have hrest := ih (number / base) (Nat.div_lt_self (by omega) hone)
        have hdigit := digit?_digitChar hbase (Nat.mod_lt number (by omega))
        rw [if_neg hlt, List.foldlM_append, hrest]
        simp [hdigit, Nat.div_add_mod']

theorem ofDigits?_repr (number : Nat) : ofDigits? 10 number.repr.toList = some number := by
  rw [Nat.toList_repr]
  exact ofDigits?_toDigits (by decide) (by decide) number

theorem notMem_repr {c : Char} (hc : ∀ digit, c ≠ Nat.digitChar digit) (number : Nat) :
    c ∉ number.repr.toList := by
  rw [Nat.toList_repr]
  exact notMem_toDigits hc (by omega) number

theorem integer?_repr (number : Int) : integer? number.repr.toList = some number := by
  rw [Int.repr_eq_if]
  split
  · next h =>
      have hsign := notMem_repr (c := '-') (by simp) number.toNat
      have hdigits := ofDigits?_repr number.toNat
      generalize number.toNat.repr.toList = digits at *
      unfold integer?
      split
      · simp at hsign
      · simp [hdigits, h]
  · next h =>
      have htext : ("-" ++ (-number).toNat.repr).toList = '-' :: (-number).toNat.repr.toList :=
        String.toList_append
      rw [htext, integer?, ofDigits?_repr]
      simp
      omega

-- What stands between two brackets around a whole text.
def bracketed? : List Char → Option (List Char)
  | '[' :: rest => if rest.getLast? = some ']' then some rest.dropLast else none
  | _ => none

theorem bracketed?_brackets (inside : List Char) :
    bracketed? ('[' :: (inside ++ [']'])) = some inside := by
  simp [bracketed?]

theorem bracketed?_eq_none {text : List Char} (h : text.head? ≠ some '[') :
    bracketed? text = none := by
  cases text with
  | nil => rfl
  | cons c rest =>
      unfold bracketed?
      split
      · next heq =>
          cases heq
          exact absurd rfl h
      · rfl

theorem after?_eq_none {front line : String} {c : Char} (hfront : c ∈ front.toList)
    (h : c ∉ line.toList) : after? front line = none :=
  if_neg fun hstart => h (hstart.subset hfront)

theorem after?_eq_none_of_head {front line : String} {c : Char} (hfront : front.toList.head? = some c)
    (h : line.toList.head? ≠ some c) : after? front line = none := by
  refine if_neg fun ⟨rest, he⟩ => h ?_
  rw [← he, List.head?_append, hfront]
  rfl

-- Pieces with commas between them are read one by one, by a reader that passes over blanks.
theorem mapM_split_intercalate {α : Type} {read : List Char → Option α} {readPiece : String → Option α}
    (hblank : ∀ piece, read (' ' :: piece) = read piece) {pieces : List String} (hsome : pieces ≠ [])
    (h : ∀ piece ∈ pieces, ',' ∉ piece.toList ∧ read piece.toList = readPiece piece) :
    (split ',' (", ".intercalate pieces).toList).mapM read = pieces.mapM readPiece := by
  have hfirst : ∀ text, (split ',' (' ' :: text)).mapM read = (split ',' text).mapM read := by
    intro text
    rw [split, if_neg (by decide)]
    cases he : split ',' text with
    | nil => exact absurd he (split_ne_nil _ _)
    | cons piece more => rw [List.mapM_cons, List.mapM_cons, hblank]
  induction pieces with
  | nil => exact absurd rfl hsome
  | cons piece more ih =>
      obtain ⟨hcomma, hpiece⟩ := h piece (by simp)
      cases more with
      | nil => simp [split_of_notMem hcomma, hpiece]
      | cons second others =>
          have hmore := ih (by simp) fun other hm => h other (by simp [hm])
          have htext : (", ".intercalate (piece :: second :: others)).toList =
              piece.toList ++ ',' :: ' ' :: (", ".intercalate (second :: others)).toList := by
            rw [String.intercalate_cons_cons, String.toList_append, String.toList_append,
              List.append_assoc]
            rfl
          rw [htext, split_append_cons hcomma, List.mapM_cons, hfirst, hmore, hpiece]
          conv_rhs => rw [List.mapM_cons]

-- What stands before the first blank of a text, and what stands behind the blanks.
def command (text : List Char) : List Char × List Char :=
  (text.takeWhile (· ≠ ' '), (text.dropWhile (· ≠ ' ')).dropWhile (· = ' '))

theorem command_append {word rest : List Char} {blanks : Nat} (hword : ' ' ∉ word)
    (hblanks : 0 < blanks) (hrest : rest.dropWhile (· = ' ') = rest) :
    command (word ++ (List.replicate blanks ' ' ++ rest)) = (word, rest) := by
  have hpiece : ∀ c ∈ word, decide (c ≠ ' ') = true :=
    fun c hm => decide_eq_true fun he => hword (he ▸ hm)
  have hgap : ∀ c ∈ List.replicate blanks ' ', decide (c = ' ') = true :=
    fun c hm => decide_eq_true (List.eq_of_mem_replicate hm)
  obtain ⟨more, rfl⟩ := Nat.exists_eq_succ_of_ne_zero (Nat.ne_of_gt hblanks)
  rw [command, List.takeWhile_append_of_pos hpiece, List.dropWhile_append_of_pos hpiece]
  have hstop : ∀ tail, (List.replicate (more + 1) ' ' ++ tail).takeWhile (· ≠ ' ') = [] ∧
      (List.replicate (more + 1) ' ' ++ tail).dropWhile (· ≠ ' ') =
        List.replicate (more + 1) ' ' ++ tail := by
    simp [List.replicate_succ]
  rw [(hstop rest).1, (hstop rest).2, List.dropWhile_append_of_pos hgap, hrest, List.append_nil]

-- A piece of a line that is found again between commas and behind blanks.
structure Tidy (piece : String) : Prop where
  comma : ',' ∉ piece.toList
  front : ∃ c ∈ piece.toList.head?, c ≠ ' '

theorem Tidy.dropWhile_eq {piece : String} (h : Tidy piece) :
    piece.toList.dropWhile (· = ' ') = piece.toList := by
  obtain ⟨c, hc, hblank⟩ := h.front
  cases hpiece : piece.toList with
  | nil => simp [hpiece] at hc
  | cons first rest =>
      rw [hpiece] at hc
      cases hc
      exact List.dropWhile_cons_of_neg (by simpa using hblank)

theorem tidy_repr (number : Nat) : Tidy number.repr := by
  refine ⟨notMem_repr (by simp) number, ?_⟩
  have hdigits := notMem_repr (c := ' ') (by simp) number
  rw [Nat.toList_repr] at hdigits ⊢
  obtain ⟨first, rest, he⟩ := List.exists_cons_of_ne_nil (@Nat.toDigits_ne_nil number 10)
  rw [he] at hdigits ⊢
  exact ⟨first, rfl, fun hfirst => hdigits (by simp [hfirst])⟩

theorem Tidy.append {first second : String} (h : Tidy first) (hsecond : ',' ∉ second.toList) :
    Tidy (first ++ second) := by
  obtain ⟨c, hc, hblank⟩ := h.front
  refine ⟨by simp [h.comma, hsecond], c, ?_, hblank⟩
  rw [String.toList_append, List.head?_append, Option.mem_def.mp hc]
  rfl

theorem tidy_reprInt (number : Int) : Tidy number.repr := by
  rw [Int.repr_eq_if]
  split
  · exact tidy_repr _
  · exact Tidy.append ⟨by decide, '-', by decide, by decide⟩ (tidy_repr _).comma

theorem notMem_reprInt {c : Char} (hc : ∀ digit, c ≠ Nat.digitChar digit) (hsign : c ≠ '-')
    (number : Int) : c ∉ number.repr.toList := by
  rw [Int.repr_eq_if]
  split
  · exact notMem_repr hc _
  · rw [String.toList_append, List.mem_append, not_or]
    exact ⟨by simpa using hsign, notMem_repr hc _⟩

-- A number begins with a digit or a sign.
theorem not_isWord_repr (number : Int) : ¬IsWord number.repr := by
  rintro ⟨first, rest, he, hfirst, _⟩
  rw [Int.repr_eq_if] at he
  split at he
  · rw [Nat.toList_repr] at he
    have hdigit : first.isDigit := by
      refine Nat.isDigit_of_mem_toDigits (b := 10) (n := number.toNat) (by omega) (by omega) ?_
      rw [he]
      exact List.mem_cons_self
    rw [Reading.isDigit_iff] at hdigit
    rw [Reading.isAlpha_iff] at hfirst
    omega
  · rw [String.toList_append] at he
    cases he
    cases hfirst

theorem tidy_word {name : String} (h : IsWord name) : Tidy name := by
  refine ⟨h.notMem (by decide), ?_⟩
  have hblank := h.notMem (c := ' ') (by decide)
  obtain ⟨first, rest, he, _⟩ := h
  rw [he] at hblank ⊢
  exact ⟨first, rfl, fun hfirst => hblank (by simp [hfirst])⟩

theorem comma_notMem_hex (number : Nat) : ',' ∉ (hex number).toList := by
  rw [hex, String.toList_ofList]
  exact notMem_toDigits (by simp) (by omega) number

end Text

open Text

namespace Register

def all : List Register := [rax, rcx, rdx, rsi, rdi, r8, r9, rbp, rsp]

def ofName? (name : String) : Option Register := all.find? (·.name = name)

def ofLowName? (name : String) : Option Register := all.find? (·.lowName = name)

theorem mem_all (register : Register) : register ∈ all := by
  cases register <;> decide

theorem ofName?_eq_none_iff {name : String} :
    ofName? name = none ↔ ∀ register : Register, register.name ≠ name := by
  simp only [ofName?, List.find?_eq_none, decide_eq_true_eq]
  exact ⟨fun h register => h register register.mem_all, fun h register _ => h register⟩

end Register

-- What an assembler takes a text between brackets for. The name of a register that listings use always
-- means the register, and any other word is a symbol. The words an assembler reserves beyond these nine
-- are not told apart.
def Address.ofText? (inside : String) : Option Address :=
  match after? "rbp-0x" inside, after? "rbp+0x" inside, after? (dataLabel ++ "+") inside,
    Register.ofName? inside with
  | some digits, _, _, _ => (ofDigits? 16 digits.toList).map .below
  | none, some digits, _, _ => (ofDigits? 16 digits.toList).map .above
  | none, none, some digits, _ => (ofDigits? 10 digits.toList).map .data
  | none, none, none, some register => some (.through register)
  | none, none, none, none =>
    if inside.toList.all Reading.isWordChar then some (.symbol inside) else none

namespace Address

-- What stands between the brackets of an address.
def inside : Address → String
  | .below bytes => "rbp-0x" ++ hex bytes
  | .above bytes => "rbp+0x" ++ hex bytes
  | .through register => register.name
  | .symbol name => name
  | .data offset => dataLabel ++ "+" ++ toString offset

theorem toList_render (address : Address) :
    address.render.toList = '[' :: (address.inside.toList ++ [']']) := by
  cases address <;> simp [render, inside]

-- The address that a reader finds in the place of another one. The name of a symbol does not tell it
-- from a register.
def seen : Address → Address
  | .symbol name => (Register.ofName? name).elim (.symbol name) .through
  | address => address

theorem seen_symbol {name : String} (h : ∀ register : Register, register.name ≠ name) :
    seen (.symbol name) = .symbol name := by
  rw [seen, Register.ofName?_eq_none_iff.mpr h]
  rfl

theorem ofText?_inside {address : Address} (h : ∀ name, address = .symbol name → IsWord name) :
    ofText? address.inside = some address.seen := by
  cases address with
  | below bytes =>
      rw [inside, ofText?, after?_append]
      simp [hex, ofDigits?_toDigits, seen]
  | above bytes =>
      have hbelow : after? "rbp-0x" ("rbp+0x" ++ hex bytes) = none := by simp [after?]
      rw [inside, ofText?, hbelow, after?_append]
      simp [hex, ofDigits?_toDigits, seen]
  | data offset =>
      have hbelow : after? "rbp-0x" (dataLabel ++ "+" ++ toString offset) = none := by
        simp [after?, dataLabel]
      have habove : after? "rbp+0x" (dataLabel ++ "+" ++ toString offset) = none := by
        simp [after?, dataLabel]
      have hdigits : ofDigits? 10 (toString offset).toList = some offset := ofDigits?_repr offset
      rw [inside, ofText?, hbelow, habove, after?_append]
      simp only [hdigits]
      rfl
  | through register => cases register <;> decide
  | symbol name =>
      have hname := h name rfl
      have hbelow : after? "rbp-0x" name = none :=
        after?_eq_none (c := '-') (by decide) (hname.notMem (by decide))
      have habove : after? "rbp+0x" name = none :=
        after?_eq_none (c := '+') (by decide) (hname.notMem (by decide))
      have hdata : after? (dataLabel ++ "+") name = none :=
        after?_eq_none (c := '+') (by decide) (hname.notMem (by decide))
      have hword : name.toList.all Reading.isWordChar = true :=
        List.all_eq_true.mpr fun c hm => hname.isWordChar hm
      rw [inside, ofText?, hbelow, habove, hdata, seen]
      cases Register.ofName? name <;> simp [hword]

end Address

-- What stands between the commas of an instruction.
inductive Term where
  | register (register : Register)
  | memory (address : Address)
  | word (address : Address)
  | number (value : Int)
  | bytes (count : Nat)
  | name (name : String)
deriving DecidableEq

-- A word in brackets is an address, and one that no register has as its name is a symbol.
def Term.ofText? (text : String) : Option Term :=
  match bracketed? text.toList, after? "qword " text, after? "0x" text, Register.ofName? text with
  | some inside, _, _, _ => (Address.ofText? (.ofList inside)).map .memory
  | none, some place, _, _ => do
    let inside ← bracketed? place.toList
    return .word (← Address.ofText? (.ofList inside))
  | none, none, some digits, _ => (ofDigits? 16 digits.toList).map .bytes
  | none, none, none, some found => some (.register found)
  | none, none, none, none =>
    if IsWord text then some (.name text) else (integer? text.toList).map .number

namespace Term

theorem ofText?_register (register : Register) :
    ofText? register.name = some (.register register) := by
  cases register <;> decide

theorem ofText?_lowName (register : Register) :
    ofText? register.lowName = some (.name register.lowName) := by
  cases register <;> decide

theorem ofText?_memory {address : Address} (h : ∀ name, address = .symbol name → IsWord name) :
    ofText? address.render = some (.memory address.seen) := by
  rw [ofText?, Address.toList_render, bracketed?_brackets]
  simp [Address.ofText?_inside h]

theorem ofText?_word {address : Address} (h : ∀ name, address = .symbol name → IsWord name) :
    ofText? ("qword " ++ address.render) = some (.word address.seen) := by
  have hbracket : bracketed? ("qword " ++ address.render).toList = none :=
    bracketed?_eq_none (by simp)
  rw [ofText?, hbracket, after?_append]
  simp [Address.toList_render, bracketed?_brackets, Address.ofText?_inside h]

theorem ofText?_bytes (count : Nat) : ofText? ("0x" ++ hex count) = some (.bytes count) := by
  have hbracket : bracketed? ("0x" ++ hex count).toList = none := bracketed?_eq_none (by simp)
  have hword : after? "qword " ("0x" ++ hex count) = none := by simp [after?]
  rw [ofText?, hbracket, hword, after?_append]
  simp [hex, ofDigits?_toDigits]

-- No name of a register is without a letter, and no word begins with a digit or a sign.
theorem ofText?_number (value : Int) : ofText? value.repr = some (.number value) := by
  have hbracket : bracketed? value.repr.toList = none :=
    bracketed?_eq_none fun hhead => notMem_reprInt (by simp) (by decide) value
      (List.mem_of_mem_head? hhead)
  have hword : after? "qword " value.repr = none :=
    after?_eq_none (c := 'q') (by decide) (notMem_reprInt (by simp) (by decide) value)
  have hbytes : after? "0x" value.repr = none :=
    after?_eq_none (c := 'x') (by decide) (notMem_reprInt (by simp) (by decide) value)
  have hregister : Register.ofName? value.repr = none := by
    refine Register.ofName?_eq_none_iff.mpr fun register he => ?_
    refine notMem_reprInt (c := 'r') (by simp) (by decide) value ?_
    rw [← he]
    cases register <;> decide
  rw [ofText?, hbracket, hword, hbytes, hregister]
  simp [not_isWord_repr, integer?_repr]

-- A name by itself is read like one in brackets.
theorem ofText?_name {name : String} (h : IsWord name) :
    ofText? name = some ((Register.ofName? name).elim (.name name) .register) := by
  have ⟨first, rest, he, hfirst, _⟩ := h
  have hbracket : bracketed? name.toList = none := by
    refine bracketed?_eq_none ?_
    rw [he]
    rintro ⟨⟩
    cases hfirst
  have hword : after? "qword " name = none :=
    after?_eq_none (c := ' ') (by decide) (h.notMem (by decide))
  have hbytes : after? "0x" name = none := by
    refine after?_eq_none_of_head (c := '0') rfl ?_
    rw [he]
    rintro ⟨⟩
    cases hfirst
  rw [ofText?, hbracket, hword, hbytes]
  cases Register.ofName? name <;> simp [h]

end Term

-- The terms behind a mnemonic, with commas between them.
def terms? (operands : List Char) : Option (List Term) :=
  if operands.isEmpty then some []
  else (split ',' operands).mapM fun piece => Term.ofText? (.ofList (piece.dropWhile (· = ' ')))

namespace Instruction

def ofTerms? : String → List Term → Option Instruction
  | "push", [.register source] => some (.push source)
  | "pop", [.register target] => some (.pop target)
  | "mov", [.register target, .register source] => some (.copy target source)
  | "mov", [.register target, .number value] => some (.set target (.ofInt value))
  | "mov", [.register target, .memory address] => some (.load target address)
  | "mov", [.memory address, .register source] => some (.store address source)
  | "mov", [.word address, .number 0] => some (.clear address)
  | "lea", [.register target, .memory address] => some (.addressOf target address)
  | "xor", [.name first, .name second] =>
    if first = second then (Register.ofLowName? first).map .zero else none
  | "sub", [.register .rsp, .bytes count] => some (.reserve count)
  | "add", [.register .rsp, .bytes count] => some (.release count)
  | "call", [.name name] => some (.call (.symbol name))
  | "call", [.register target] => some (.call (.through target))
  | "call", [.word address] => some (.call (.stored address))
  | "ret", [] => some .ret
  | "syscall", [] => some .syscall
  | _, _ => none

-- A line of code: a mnemonic and, behind blanks, its terms.
def ofText? (line : String) : Option Instruction := do
  let (mnemonic, operands) := command (← after? "\t" line).toList
  ofTerms? (.ofList mnemonic) (← terms? operands)

end Instruction

theorem front_intercalate {pieces : List String} (hsome : pieces ≠ [])
    (h : ∀ piece ∈ pieces, Tidy piece) :
    ∃ c ∈ (", ".intercalate pieces).toList.head?, c ≠ ' ' := by
  obtain ⟨piece, more, rfl⟩ := List.exists_cons_of_ne_nil hsome
  obtain ⟨c, hc, hblank⟩ := (h piece (by simp)).front
  refine ⟨c, ?_, hblank⟩
  cases more with
  | nil => simpa using hc
  | cons second others =>
      rw [String.intercalate_cons_cons, String.append_assoc, String.toList_append, List.head?_append,
        Option.mem_def.mp hc]
      rfl

theorem terms?_intercalate {pieces : List String} (hsome : pieces ≠ [])
    (h : ∀ piece ∈ pieces, Tidy piece) :
    terms? (", ".intercalate pieces).toList = pieces.mapM Term.ofText? := by
  have hfront : ¬(", ".intercalate pieces).toList.isEmpty := by
    obtain ⟨c, hc, _⟩ := front_intercalate hsome h
    intro hempty
    rw [List.isEmpty_iff.mp hempty] at hc
    cases hc
  rw [terms?, if_neg hfront]
  refine mapM_split_intercalate (fun piece => ?_) hsome fun piece hm => ⟨(h piece hm).comma, ?_⟩
  · rw [List.dropWhile_cons_of_pos (by decide)]
  · rw [(h piece hm).dropWhile_eq, String.ofList_toList]

namespace Instruction

-- The terms of an instruction as they are written.
def parts : Instruction → List String
  | .push register => [register.name]
  | .pop register => [register.name]
  | .copy target source => [target.name, source.name]
  | .set register value => [register.name, toString value.toInt]
  | .load register address => [register.name, address.render]
  | .store address register => [address.render, register.name]
  | .clear address => ["qword " ++ address.render, "0"]
  | .addressOf register address => [register.name, address.render]
  | .zero register => [register.lowName, register.lowName]
  | .reserve bytes => ["rsp", "0x" ++ hex bytes]
  | .release bytes => ["rsp", "0x" ++ hex bytes]
  | .call target => [target.render]
  | .ret => []
  | .syscall => []

theorem operands?_eq (instruction : Instruction) : instruction.operands? =
    if instruction.parts = [] then none else some (", ".intercalate instruction.parts) := by
  cases instruction <;>
    simp [operands?, parts, String.intercalate_cons_cons, String.append_assoc] <;>
    exact String.toList_inj.mp (by simp)

theorem mnemonic_word (instruction : Instruction) :
    ' ' ∉ instruction.mnemonic.toList ∧ instruction.mnemonic.length < 8 := by
  cases instruction <;> simp +decide [mnemonic]

theorem ofText?_text {instruction : Instruction} (hsome : instruction.parts ≠ [])
    (h : ∀ part ∈ instruction.parts, Tidy part) :
    ofText? (Line.instruction instruction).text =
      (instruction.parts.mapM Term.ofText?).bind (ofTerms? instruction.mnemonic) := by
  obtain ⟨hblank, hlength⟩ := instruction.mnemonic_word
  have hfront : (", ".intercalate instruction.parts).toList.dropWhile (· = ' ') =
      (", ".intercalate instruction.parts).toList := by
    obtain ⟨c, hc, hne⟩ := front_intercalate hsome h
    obtain ⟨rest, he⟩ := List.head?_eq_some_iff.mp (Option.mem_def.mp hc)
    rw [he]
    exact List.dropWhile_cons_of_neg (by simpa using hne)
  have hcode : (padMnemonic instruction.mnemonic ++ ", ".intercalate instruction.parts).toList =
      instruction.mnemonic.toList ++ (List.replicate (8 - instruction.mnemonic.length) ' ' ++
        (", ".intercalate instruction.parts).toList) := by
    simp [padMnemonic]
  have hcommand := command_append hblank (Nat.sub_pos_of_lt hlength) hfront
  rw [← hcode] at hcommand
  rw [Line.text, ofText?, after?_append, render, operands?_eq, if_neg hsome]
  simp only [Option.bind_eq_bind, Option.bind_some, hcommand, String.ofList_toList,
    terms?_intercalate hsome h]

end Instruction

theorem Register.tidy (register : Register) : Tidy register.name ∧ Tidy register.lowName := by
  cases register <;> exact ⟨⟨by decide, _, rfl, by decide⟩, ⟨by decide, _, rfl, by decide⟩⟩

theorem Address.comma_notMem_inside {address : Address}
    (h : ∀ name, address = .symbol name → IsWord name) : ',' ∉ address.inside.toList := by
  cases address with
  | below bytes | above bytes => simp [inside, comma_notMem_hex]
  | through register => exact register.tidy.1.comma
  | symbol name => exact (tidy_word (h name rfl)).comma
  | data offset =>
      have hdigits : ',' ∉ offset.repr.toList := (tidy_repr offset).comma
      rw [inside, String.toList_append, List.mem_append, not_or]
      exact ⟨by decide, hdigits⟩

theorem Address.tidy {address : Address} (h : ∀ name, address = .symbol name → IsWord name) :
    Tidy address.render ∧ Tidy ("qword " ++ address.render) := by
  have hcomma : ',' ∉ address.render.toList := by
    rw [toList_render]
    simp [comma_notMem_inside h]
  refine ⟨⟨hcomma, '[', ?_, by decide⟩, Tidy.append ⟨by decide, 'q', by decide, by decide⟩ hcomma⟩
  rw [toList_render]
  rfl

def Target.seen : Target → Target
  | .symbol name => (Register.ofName? name).elim (.symbol name) .through
  | .through register => .through register
  | .stored address => .stored address.seen

namespace Instruction

-- The instruction that a reader finds in the place of another one.
def seen : Instruction → Instruction
  | .load register address => .load register address.seen
  | .store address register => .store address.seen register
  | .clear address => .clear address.seen
  | .addressOf register address => .addressOf register address.seen
  | .call target => .call target.seen
  | instruction => instruction

-- The instructions without terms stand by themselves in their lines.
theorem ofText?_eq_seen {instruction : Instruction}
    (h : ∀ name, instruction.Names name → IsWord name) :
    ofText? (Line.instruction instruction).text = some instruction.seen := by
  have hname := fun register : Register => register.tidy.1
  have hlow := fun register : Register => register.tidy.2
  have haddress : ∀ address, instruction.address? = some address →
      ∀ name, address = .symbol name → IsWord name :=
    fun address ha name he => h name (.inr (he ▸ ha))
  cases instruction with
  | ret | syscall => decide
  | push register | pop register | copy target source =>
      rw [ofText?_text (by simp [parts]) (by simp [parts, hname])]
      simp [parts, Term.ofText?_register]
      rfl
  | set register value =>
      rw [ofText?_text (by simp [parts]) (by simp [parts, hname, tidy_reprInt])]
      simp [parts, Term.ofText?_register, Term.ofText?_number, mnemonic, ofTerms?, seen]
  | load register address | store address register | addressOf register address =>
      have hplace := haddress address rfl
      rw [ofText?_text (by simp [parts]) (by simp [parts, hname, Address.tidy hplace])]
      simp [parts, Term.ofText?_register, Term.ofText?_memory hplace]
      rfl
  | clear address =>
      have hplace := haddress address rfl
      have hzero : Tidy "0" := tidy_repr 0
      rw [ofText?_text (by simp [parts]) (by simp [parts, Address.tidy hplace, hzero])]
      simp [parts, Term.ofText?_word hplace]
      rfl
  | zero register =>
      rw [ofText?_text (by simp [parts]) (by simp [parts, hlow])]
      simp [parts, Term.ofText?_lowName]
      cases register <;> decide
  | reserve bytes | release bytes =>
      have hstack : Tidy "rsp" := hname .rsp
      have hcount : Tidy ("0x" ++ hex bytes) :=
        Tidy.append ⟨by decide, '0', by decide, by decide⟩ (comma_notMem_hex bytes)
      rw [ofText?_text (by simp [parts]) (by simp [parts, hstack, hcount])]
      simp [parts, Term.ofText?_bytes]
      rfl
  | call target =>
      cases target with
      | symbol name =>
          have hplace := h name (.inl rfl)
          rw [ofText?_text (by simp [parts]) (by simp [parts, Target.render, tidy_word hplace])]
          simp only [parts, Target.render, List.mapM_cons, List.mapM_nil, Term.ofText?_name hplace,
            seen, Target.seen]
          cases Register.ofName? name <;> rfl
      | through register =>
          rw [ofText?_text (by simp [parts]) (by simp [parts, Target.render, hname])]
          simp [parts, Target.render, Term.ofText?_register]
          rfl
      | stored address =>
          have hplace := haddress address rfl
          rw [ofText?_text (by simp [parts]) (by simp [parts, Target.render, Address.tidy hplace])]
          simp [parts, Target.render, Term.ofText?_word hplace]
          rfl

theorem mapM_ofText? {code : List Instruction}
    (h : ∀ instruction ∈ code, ∀ name, instruction.Names name → IsWord name) :
    (code.map fun instruction => (Line.instruction instruction).text).mapM ofText? =
      some (code.map seen) := by
  induction code with
  | nil => rfl
  | cons first more ih =>
      have hmore := ih fun instruction hm => h instruction (by simp [hm])
      rw [List.map_cons, List.mapM_cons, ofText?_eq_seen (h first (by simp)), hmore]
      rfl

end Instruction

theorem Address.seen_eq_self {address : Address}
    (h : ∀ register : Register, address ≠ .symbol register.name) : address.seen = address := by
  cases address with
  | symbol name => exact seen_symbol fun register he => h register (by rw [he])
  | _ => rfl

-- Reading a line gives its instruction back if no symbol in it has the name of a register.
theorem Instruction.seen_eq_self {instruction : Instruction}
    (h : ∀ register : Register, ¬instruction.Names register.name) : instruction.seen = instruction := by
  have haddress : ∀ address, instruction.address? = some address → address.seen = address :=
    fun address ha => Address.seen_eq_self fun register he => h register (.inr (he ▸ ha))
  cases instruction with
  | load | store | clear | addressOf => rw [seen, haddress _ rfl]
  | call target =>
      cases target with
      | symbol name =>
          have hnone : Register.ofName? name = none :=
            Register.ofName?_eq_none_iff.mpr fun register he => h register (.inl (by rw [he]))
          rw [seen, Target.seen, hnone]
          rfl
      | through => rfl
      | stored address => rw [seen, Target.seen, haddress address rfl]
  | _ => rfl

theorem Instruction.map_seen_eq_self {code : List Instruction}
    (h : ∀ instruction ∈ code, ∀ register : Register, ¬instruction.Names register.name) :
    code.map seen = code := by
  rw [List.map_congr_left fun instruction hm => seen_eq_self (h instruction hm), List.map_id']

theorem Address.seen_eq_below_iff {address : Address} {bytes : Nat} :
    address.seen = .below bytes ↔ address = .below bytes := by
  cases address with
  | symbol name => cases he : Register.ofName? name <;> simp [seen, he]
  | _ => rfl

theorem Instruction.address?_seen (instruction : Instruction) :
    instruction.seen.address? = instruction.address?.map Address.seen := by
  cases instruction with
  | call target =>
      cases target with
      | symbol name => cases he : Register.ofName? name <;> simp [seen, Target.seen, address?, he]
      | _ => rfl
  | _ => rfl

@[simp] theorem Instruction.isPlain_seen (instruction : Instruction) :
    instruction.seen.isPlain = instruction.isPlain := by
  cases instruction <;> rfl

-- The code in the lines under a label. Those that begin with a semicolon are remarks.
def Text.code? (lines : List String) : Option (List Instruction) :=
  (lines.filter fun line => (after? "\t;" line).isNone).mapM Instruction.ofText?

theorem after?_remark (instruction : Instruction) :
    after? "\t;" (Line.instruction instruction).text = none := by
  cases instruction <;>
    simp [after?, Line.text, Instruction.render, Instruction.operands?, Instruction.mnemonic,
      padMnemonic]

-- The code of lines is read back without the remarks between them.
theorem code?_lines {lines : List Line}
    (h : ∀ instruction ∈ lines.filterMap Line.code?, ∀ name, instruction.Names name → IsWord name) :
    code? (lines.map Line.text) = some ((lines.filterMap Line.code?).map Instruction.seen) := by
  have hfilter : (lines.map Line.text).filter (fun line => (after? "\t;" line).isNone) =
      (lines.filterMap Line.code?).map fun instruction => (Line.instruction instruction).text := by
    clear h
    induction lines with
    | nil => rfl
    | cons line more ih =>
        cases line with
        | instruction code =>
            rw [List.map_cons, List.filter_cons_of_pos (by rw [after?_remark]; rfl), ih]
            rfl
        | place | externs | function =>
            rw [List.map_cons, List.filter_cons_of_neg (by simp [Line.text, after?]), ih]
            rfl
  rw [code?, hfilter, Instruction.mapM_ofText? h]

end RayCompiler
