-- SUMMARY: Form decoding: plus signs and percent escapes turned into bytes, for any way to read an escape.
import EdgeReplica.Lib.Hex

/-!
# Form decoding

A plus sign stands for a space and `%` with two digits for a byte; any other byte stands
for itself. A decoder is given by how it reads the two bytes after a percent sign. Of two
decoders one of which reads more escapes than the other, it can be said exactly where
they agree.
-/

namespace Form

def plus : UInt8 := 43

def percent : UInt8 := 37

def space : UInt8 := 32

/-- A byte outside of an escape. -/
def plain (b : UInt8) : UInt8 := if b = plus then space else b

/-- Decode, with the escapes read by `escape`. -/
def decodeWith (escape : UInt8 → UInt8 → Option UInt8) : List UInt8 → List UInt8
  | [] => []
  | [b] => [plain b]
  | [b, c] => [plain b, plain c]
  | b :: hi :: lo :: rest =>
    if b = percent then
      match escape hi lo with
      | some byte => byte :: decodeWith escape rest
      | none => percent :: decodeWith escape (hi :: lo :: rest)
    else plain b :: decodeWith escape (hi :: lo :: rest)

/-- Decode as the format has it: an escape is two hexadecimal digits. -/
def decode : List UInt8 → List UInt8 := decodeWith Hex.byte?

variable {escape escape' : UInt8 → UInt8 → Option UInt8}

theorem decodeWith_cons {b : UInt8} (h : b ≠ percent) (rest : List UInt8) :
    decodeWith escape (b :: rest) = plain b :: decodeWith escape rest := by
  match rest with
  | [] | [_] => rfl
  | _ :: _ :: _ => rw [decodeWith, if_neg h]

theorem decodeWith_escape {hi lo byte : UInt8} (h : escape hi lo = some byte)
    (rest : List UInt8) :
    decodeWith escape (percent :: hi :: lo :: rest) = byte :: decodeWith escape rest := by
  rw [decodeWith, if_pos rfl, h]

theorem decodeWith_malformed {hi lo : UInt8} (h : escape hi lo = none) (rest : List UInt8) :
    decodeWith escape (percent :: hi :: lo :: rest) =
      percent :: decodeWith escape (hi :: lo :: rest) := by
  rw [decodeWith, if_pos rfl, h]

/-- Too few bytes follow for an escape. -/
theorem decodeWith_short {rest : List UInt8} (h : rest.length < 2) (b : UInt8) :
    decodeWith escape (b :: rest) = plain b :: decodeWith escape rest := by
  match rest with
  | [] | [_] => rfl
  | _ :: _ :: rest => exact absurd h (by simp)

/-- The first decoder reads every escape that the second reads, in the same way, and no
percent sign is part of one. -/
structure Extends (escape escape' : UInt8 → UInt8 → Option UInt8) : Prop where
  reads : ∀ hi lo byte, escape' hi lo = some byte → escape hi lo = some byte
  percent : ∀ hi lo byte, escape hi lo = some byte → hi ≠ percent ∧ lo ≠ percent

theorem Extends.eq_none (h : Extends escape escape') {hi lo : UInt8} (hread : escape hi lo = none) :
    escape' hi lo = none := by
  cases hread' : escape' hi lo with
  | none => rfl
  | some byte =>
    rw [h.reads hi lo byte hread'] at hread
    cases hread

/-- The escapes in the text are read in the same way. -/
def Agree (escape escape' : UInt8 → UInt8 → Option UInt8) (bytes : List UInt8) : Prop :=
  ∀ hi lo, [percent, hi, lo] <:+: bytes → escape hi lo = escape' hi lo

theorem Agree.tail {b : UInt8} {bytes : List UInt8} (h : Agree escape escape' (b :: bytes)) :
    Agree escape escape' bytes :=
  fun hi lo hin => h hi lo (hin.trans (List.suffix_cons b bytes).isInfix)

theorem agree_cons {b : UInt8} {bytes : List UInt8} (h : Agree escape escape' bytes)
    (hhead : ∀ hi lo rest, b :: bytes = percent :: hi :: lo :: rest →
      escape hi lo = escape' hi lo) : Agree escape escape' (b :: bytes) := by
  intro hi lo hin
  rcases List.infix_cons_iff.mp hin with ⟨rest, hrest⟩ | hin
  · exact hhead hi lo rest hrest.symm
  · exact h hi lo hin

/-- A decoder that reads more escapes gives no more bytes, and fewer at the first
escape that only it reads. -/
theorem length_decodeWith (h : Extends escape escape') (bytes : List UInt8) :
    (decodeWith escape bytes).length ≤ (decodeWith escape' bytes).length ∧
      ((decodeWith escape bytes).length = (decodeWith escape' bytes).length →
        Agree escape escape' bytes) := by
  induction bytes using decodeWith.induct escape with
  | case1 =>
    refine ⟨Nat.le_refl _, fun _ hi lo hin => ?_⟩
    cases List.infix_nil.mp hin
  | case2 b =>
    refine ⟨Nat.le_refl _, fun _ hi lo hin => ?_⟩
    cases Nat.not_succ_le_zero 1 (Nat.le_of_succ_le_succ hin.length_le)
  | case3 b c =>
    refine ⟨Nat.le_refl _, fun _ hi lo hin => ?_⟩
    cases Nat.not_succ_le_self 2 hin.length_le
  | case4 hi lo rest byte hread ih =>
    -- The other decoder reads the escape in the same way, or passes over its three bytes.
    obtain ⟨hhi, hlo⟩ := h.percent hi lo byte hread
    rw [decodeWith_escape hread]
    cases hread' : escape' hi lo with
    | some byte' =>
      rw [decodeWith_escape hread', List.length_cons, List.length_cons]
      refine ⟨Nat.succ_le_succ ih.1, fun heq => ?_⟩
      refine agree_cons (agree_cons (agree_cons (ih.2 (Nat.succ.inj heq)) ?_) ?_) ?_
      · rintro hi' lo' rest' heq'
        exact absurd (List.head_eq_of_cons_eq heq') hlo
      · rintro hi' lo' rest' heq'
        exact absurd (List.head_eq_of_cons_eq heq') hhi
      · rintro hi' lo' rest' heq'
        cases heq'
        rw [hread', h.reads hi lo byte' hread']
    | none =>
      rw [decodeWith_malformed hread', decodeWith_cons hhi, decodeWith_cons hlo]
      simp only [List.length_cons]
      have hle := ih.1
      exact ⟨by omega, fun heq => by omega⟩
  | case5 hi lo rest hread ih =>
    have hread' := h.eq_none hread
    rw [decodeWith_malformed hread, decodeWith_malformed hread', List.length_cons,
      List.length_cons]
    refine ⟨Nat.succ_le_succ ih.1, fun heq => agree_cons (ih.2 (Nat.succ.inj heq)) ?_⟩
    rintro hi' lo' rest' heq'
    cases heq'
    rw [hread, hread']
  | case6 b hi lo rest hb ih =>
    rw [decodeWith_cons hb, decodeWith_cons hb, List.length_cons, List.length_cons]
    refine ⟨Nat.succ_le_succ ih.1, fun heq => agree_cons (ih.2 (Nat.succ.inj heq)) ?_⟩
    rintro hi' lo' rest' heq'
    exact absurd (List.head_eq_of_cons_eq heq') hb

/-- Two decoders agree on a text exactly if they agree on the escapes in it. -/
theorem decodeWith_eq_iff (h : Extends escape escape') (bytes : List UInt8) :
    decodeWith escape bytes = decodeWith escape' bytes ↔ Agree escape escape' bytes := by
  constructor
  · intro heq
    exact (length_decodeWith h bytes).2 (congrArg List.length heq)
  · intro hagree
    induction bytes using decodeWith.induct escape with
    | case1 | case2 | case3 => rfl
    | case4 hi lo rest byte hread ih =>
      have hread' : escape' hi lo = some byte := by
        rw [← hagree hi lo ⟨[], rest, rfl⟩, hread]
      rw [decodeWith_escape hread, decodeWith_escape hread', ih hagree.tail.tail.tail]
    | case5 hi lo rest hread ih =>
      have hread' : escape' hi lo = none := by rw [← hagree hi lo ⟨[], rest, rfl⟩, hread]
      rw [decodeWith_malformed hread, decodeWith_malformed hread', ih hagree.tail]
    | case6 b hi lo rest hb ih =>
      rw [decodeWith_cons hb, decodeWith_cons hb, ih hagree.tail]

end Form
