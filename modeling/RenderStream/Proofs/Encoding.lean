import RenderStream.Fingerprint

/-!
# Reading encodings back

A code is prefix-free when both what it stands for and what follows it can be read off the bytes.
Codes of one length are prefix-free as soon as they are injective, and records are read field by
field. Where a code starts with a tag, the tag tells the form; where its length varies, a count
stands before it. A count has eight bytes, so primitives are read back as long as their vertices can
be counted in them (`Command.Countable`). Then commands are prefix-free (`command_prefixFree`), and
sequences of them are told apart (`commands_inj`).
-/

namespace RenderStream

namespace Encoding

variable {α : Type}

/-- The value and what follows its code are determined by the bytes. -/
def PrefixFree (encode : α → List UInt8) : Prop :=
  ∀ a b r s, encode a ++ r = encode b ++ s → a = b ∧ r = s

/-- An encoding that is free of prefixes tells its values apart. -/
theorem PrefixFree.injective {encode : α → List UInt8} (h : PrefixFree encode) :
    Function.Injective encode := by
  intro a b hab
  exact (h a b [] [] (by rw [hab])).1

/-- Codes of one length. -/
theorem prefixFree_of_length {encode : α → List UInt8} (n : Nat)
    (hlength : ∀ a, (encode a).length = n) (hinj : Function.Injective encode) :
    PrefixFree encode := by
  intro a b r s h
  obtain ⟨hab, hrs⟩ := List.append_inj h ((hlength a).trans (hlength b).symm)
  exact ⟨hinj hab, hrs⟩

/-- A value that may be absent, behind a tag that tells whether it is there. -/
theorem prefixFree_optional {encode : α → List UInt8} (h : PrefixFree encode)
    {encode' : Option α → List UInt8} (hnone : encode' none = [0])
    (hsome : ∀ a, encode' (some a) = 1 :: encode a) : PrefixFree encode' := by
  intro a b r s h₀
  cases a with
  | none =>
    cases b with
    | none =>
      rw [hnone] at h₀
      exact ⟨rfl, (List.cons.inj h₀).2⟩
    | some b =>
      rw [hnone, hsome] at h₀
      exact absurd (List.cons.inj h₀).1 (by decide)
  | some a =>
    cases b with
    | none =>
      rw [hnone, hsome] at h₀
      exact absurd (List.cons.inj h₀).1 (by decide)
    | some b =>
      rw [hsome, hsome] at h₀
      obtain ⟨rfl, hrs⟩ := h _ _ _ _ (List.cons.inj h₀).2
      exact ⟨rfl, hrs⟩

/-- Sequences of one length, element by element. -/
theorem PrefixFree.flatMap {encode : α → List UInt8} (h : PrefixFree encode) :
    ∀ {as bs : List α} {r s : List UInt8}, as.length = bs.length →
      as.flatMap encode ++ r = bs.flatMap encode ++ s → as = bs ∧ r = s
  | [], [], _, _, _, h₀ => ⟨rfl, h₀⟩
  | a :: as, b :: bs, r, s, hlength, h₀ => by
    rw [List.flatMap_cons, List.flatMap_cons, List.append_assoc, List.append_assoc] at h₀
    obtain ⟨rfl, h₁⟩ := h a b _ _ h₀
    obtain ⟨rfl, hrs⟩ := h.flatMap (Nat.succ.inj hlength) h₁
    exact ⟨rfl, hrs⟩

/-! ## Numbers -/

/-- The bytes of a word, as numbers, in terms of the word. -/
theorem u32_injective : Function.Injective u32 := by
  intro n m h
  simp only [u32, List.cons.injEq, ← UInt8.toNat_inj, UInt32.toNat_toUInt8,
    UInt32.toNat_shiftRight, Nat.shiftRight_eq_div_pow] at h
  obtain ⟨h₀, h₁, h₂, h₃, -⟩ := h
  rw [← UInt32.toNat_inj]
  have hn := n.toNat_lt
  have hm := m.toNat_lt
  simp at h₁ h₂ h₃
  omega

/-- Words of 64 bits are told apart by their bytes. -/
theorem u64_injective : Function.Injective u64 := by
  intro n m h
  simp only [u64, List.cons.injEq, ← UInt8.toNat_inj, UInt64.toNat_toUInt8,
    UInt64.toNat_shiftRight, Nat.shiftRight_eq_div_pow] at h
  obtain ⟨h₀, h₁, h₂, h₃, h₄, h₅, h₆, h₇, -⟩ := h
  rw [← UInt64.toNat_inj]
  have hn := n.toNat_lt
  have hm := m.toNat_lt
  simp at h₁ h₂ h₃ h₄ h₅ h₆ h₇
  omega

theorem u32_prefixFree : PrefixFree u32 := prefixFree_of_length 4 (fun _ => rfl) u32_injective

theorem u64_prefixFree : PrefixFree u64 := prefixFree_of_length 8 (fun _ => rfl) u64_injective

/-- A float is read back with its pattern. -/
theorem single_prefixFree : PrefixFree single := by
  intro x y r s h
  obtain ⟨hbits, hrs⟩ := u32_prefixFree _ _ _ _ h
  obtain ⟨x⟩ := x
  obtain ⟨y⟩ := y
  cases hbits
  exact ⟨rfl, hrs⟩

/-- A count is read back when it fits its eight bytes. -/
theorem length_prefixFree {m n : Nat} {r s : List UInt8} (hm : m < UInt64.size)
    (hn : n < UInt64.size) (h : length m ++ r = length n ++ s) : m = n ∧ r = s := by
  obtain ⟨hmn, hrs⟩ := u64_prefixFree _ _ _ _ h
  have hmod := congrArg UInt64.toNat hmn
  rw [UInt64.toNat_ofNat_of_lt' hm, UInt64.toNat_ofNat_of_lt' hn] at hmod
  exact ⟨hmod, hrs⟩

/-! ## Host state -/

/-- A rectangle's code ends where those of its four sides do. -/
theorem rect_prefixFree : PrefixFree rect := by
  rintro ⟨x0, y0, x1, y1⟩ ⟨x0', y0', x1', y1'⟩ r s h₀
  simp only [rect, List.append_assoc] at h₀
  obtain ⟨rfl, h₁⟩ := single_prefixFree _ _ _ _ h₀
  obtain ⟨rfl, h₂⟩ := single_prefixFree _ _ _ _ h₁
  obtain ⟨rfl, h₃⟩ := single_prefixFree _ _ _ _ h₂
  obtain ⟨rfl, hrs⟩ := single_prefixFree _ _ _ _ h₃
  exact ⟨rfl, hrs⟩

/-- Modes of culling have codes of one byte. -/
theorem cullMode_prefixFree : PrefixFree cullMode := by
  refine prefixFree_of_length 1 (fun m => ?_) (fun m n h => ?_)
  · cases m <;> rfl
  · cases m <;> cases n <;> simp_all [cullMode]

/-- Windings have codes of one byte. -/
theorem winding_prefixFree : PrefixFree winding := by
  refine prefixFree_of_length 1 (fun w => ?_) (fun w v h => ?_)
  · cases w <;> rfl
  · cases w <;> cases v <;> simp_all [winding]

/-- Slots have codes of one byte. -/
theorem slot_prefixFree : PrefixFree slot := by
  refine prefixFree_of_length 1 (fun _ => rfl) (fun s t h => ?_)
  have hindex := congrArg UInt8.toNat (List.cons.inj h).1
  have hs : (s.index : Nat) < 2 ^ 8 := Nat.lt_trans s.index.isLt (by decide)
  have ht : (t.index : Nat) < 2 ^ 8 := Nat.lt_trans t.index.isLt (by decide)
  rw [UInt8.toNat_ofNat_of_lt' hs, UInt8.toNat_ofNat_of_lt' ht] at hindex
  exact Slot.index_inj.1 (Fin.ext hindex)

/-- A color has a code of four bytes. -/
theorem color_prefixFree : PrefixFree color := by
  refine prefixFree_of_length 4 (fun _ => rfl) ?_
  rintro ⟨r, g, b, a⟩ ⟨r', g', b', a'⟩ h
  obtain ⟨rfl, rfl, rfl, rfl, -⟩ : r = r' ∧ g = g' ∧ b = b' ∧ a = a' ∧ True := by
    simpa [color] using h
  rfl

/-- Flags have codes of one byte. -/
theorem flag_prefixFree : PrefixFree fun on : Bool => u8 (if on then 1 else 0) := by
  refine prefixFree_of_length 1 (fun _ => rfl) (fun a b h => ?_)
  cases a <;> cases b <;> simp_all [u8]

/-- The tag of a slot value tells its form, and the form how to read on. -/
theorem slotValue_prefixFree : PrefixFree slotValue := by
  intro u v r s h
  cases u <;> cases v <;> try exact absurd (List.cons.inj h).1 (by decide)
  case flag.flag a b =>
    obtain ⟨rfl, hrs⟩ := flag_prefixFree a b r s (List.cons.inj h).2
    exact ⟨rfl, hrs⟩
  case bits.bits a b =>
    obtain ⟨rfl, hrs⟩ := u64_prefixFree a b r s (List.cons.inj h).2
    exact ⟨rfl, hrs⟩
  case color.color a b =>
    obtain ⟨rfl, hrs⟩ := color_prefixFree a b r s (List.cons.inj h).2
    exact ⟨rfl, hrs⟩
  case rect.rect a b =>
    obtain ⟨rfl, hrs⟩ := rect_prefixFree a b r s (List.cons.inj h).2
    exact ⟨rfl, hrs⟩
  case cull.cull a b =>
    obtain ⟨rfl, hrs⟩ := cullMode_prefixFree a b r s (List.cons.inj h).2
    exact ⟨rfl, hrs⟩
  case winding.winding a b =>
    obtain ⟨rfl, hrs⟩ := winding_prefixFree a b r s (List.cons.inj h).2
    exact ⟨rfl, hrs⟩
  case handle.handle a b =>
    obtain ⟨rfl, hrs⟩ := u32_prefixFree a b r s (List.cons.inj h).2
    exact ⟨rfl, hrs⟩

/-! ## Primitives -/

/-- Kinds of primitives have codes of one byte. -/
theorem kind_prefixFree : PrefixFree kind := by
  refine prefixFree_of_length 1 (fun k => ?_) (fun k l h => ?_)
  · cases k <;> rfl
  · cases k <;> cases l <;> simp_all [kind]

/-- A vertex's code ends where that of its color does. -/
theorem vertex_prefixFree : PrefixFree vertex := by
  rintro ⟨x, y, depth, u, v, c⟩ ⟨x', y', depth', u', v', c'⟩ r s h₀
  simp only [vertex, List.append_assoc] at h₀
  obtain ⟨rfl, h₁⟩ := single_prefixFree _ _ _ _ h₀
  obtain ⟨rfl, h₂⟩ := single_prefixFree _ _ _ _ h₁
  obtain ⟨rfl, h₃⟩ := single_prefixFree _ _ _ _ h₂
  obtain ⟨rfl, h₄⟩ := single_prefixFree _ _ _ _ h₃
  obtain ⟨rfl, h₅⟩ := single_prefixFree _ _ _ _ h₄
  obtain ⟨rfl, hrs⟩ := color_prefixFree _ _ _ _ h₅
  exact ⟨rfl, hrs⟩

/-- The vertices of primitives have no end mark, so it takes their number to read them back. -/
theorem primitive_prefixFree {p q : Primitive} {r s : List UInt8}
    (hp : p.vertices.length < UInt64.size) (hq : q.vertices.length < UInt64.size)
    (h₀ : primitive p ++ r = primitive q ++ s) : p = q ∧ r = s := by
  obtain ⟨vs, k⟩ := p
  obtain ⟨ws, l⟩ := q
  simp only [primitive, vertices, List.append_assoc] at h₀
  obtain ⟨rfl, h₁⟩ := kind_prefixFree _ _ _ _ h₀
  obtain ⟨hlength, h₂⟩ := length_prefixFree hp hq h₁
  obtain ⟨rfl, hrs⟩ := vertex_prefixFree.flatMap hlength h₂
  exact ⟨rfl, hrs⟩

/-! ## Commands -/

/-- A depth's code ends where its word does. -/
theorem depth_prefixFree : PrefixFree depth :=
  prefixFree_optional single_prefixFree rfl fun _ => rfl

end Encoding

/-- A draw whose vertices can be counted in eight bytes; any other command. -/
def Command.Countable : Command → Prop
  | .draw p => p.vertices.length < UInt64.size
  | _ => True

instance : DecidablePred Command.Countable
  | .draw p => inferInstanceAs (Decidable (p.vertices.length < UInt64.size))
  | .set _ _ => inferInstanceAs (Decidable True)
  | .clear _ _ => inferInstanceAs (Decidable True)
  | .barrier => inferInstanceAs (Decidable True)

namespace Encoding

/-- A command and what follows it are determined by the bytes. -/
theorem command_prefixFree {c d : Command} {r s : List UInt8} (hc : c.Countable)
    (hd : d.Countable) (h : command c ++ r = command d ++ s) : c = d ∧ r = s := by
  cases c <;> cases d <;> try exact absurd (List.cons.inj h).1 (by decide)
  case set.set slot v slot' v' =>
    simp only [command, List.cons_append, List.append_assoc] at h
    obtain ⟨rfl, h₁⟩ := slot_prefixFree _ _ _ _ (List.cons.inj h).2
    obtain ⟨rfl, hrs⟩ := slotValue_prefixFree _ _ _ _ h₁
    exact ⟨rfl, hrs⟩
  case draw.draw p q =>
    obtain ⟨rfl, hrs⟩ := primitive_prefixFree hc hd (List.cons.inj h).2
    exact ⟨rfl, hrs⟩
  case clear.clear color depth color' depth' =>
    simp only [command, List.cons_append, List.append_assoc] at h
    obtain ⟨rfl, h₁⟩ := color_prefixFree _ _ _ _ (List.cons.inj h).2
    obtain ⟨rfl, hrs⟩ := depth_prefixFree _ _ _ _ h₁
    exact ⟨rfl, hrs⟩
  case barrier.barrier => exact ⟨rfl, (List.cons.inj h).2⟩

/-- No command has an empty code. -/
theorem command_ne_nil (c : Command) : command c ≠ [] := by
  cases c <;> exact List.cons_ne_nil _ _

/-- No command is empty, so a sequence ends where its bytes end. -/
theorem flatMap_command_inj : ∀ {cs ds : List Command}, (∀ c ∈ cs, c.Countable) →
    (∀ d ∈ ds, d.Countable) → cs.flatMap command = ds.flatMap command → cs = ds
  | [], [], _, _, _ => rfl
  | [], d :: ds, _, _, h => absurd (List.append_eq_nil_iff.1 h.symm).1 (command_ne_nil d)
  | c :: cs, [], _, _, h => absurd (List.append_eq_nil_iff.1 h).1 (command_ne_nil c)
  | c :: cs, d :: ds, hc, hd, h => by
    obtain ⟨rfl, hrest⟩ :=
      command_prefixFree (hc c List.mem_cons_self) (hd d List.mem_cons_self) h
    rw [flatMap_command_inj (fun e he => hc e (List.mem_cons_of_mem _ he))
      (fun e he => hd e (List.mem_cons_of_mem _ he)) hrest]

/-- A sequence of commands is determined by its bytes, whatever its length: the count in front of it
is not even needed. -/
theorem commands_inj {cs ds : List Command} (hcs : ∀ c ∈ cs, c.Countable)
    (hds : ∀ d ∈ ds, d.Countable) (h : commands cs = commands ds) : cs = ds :=
  flatMap_command_inj hcs hds (u64_prefixFree _ _ _ _ h).2

end Encoding

open Encoding

/-- A fingerprint is read back from its bytes. -/
theorem Fingerprint.bytes_prefixFree : PrefixFree Fingerprint.bytes := by
  rintro ⟨high, low⟩ ⟨high', low'⟩ r s h₀
  simp only [bytes, List.append_assoc] at h₀
  obtain ⟨rfl, h₁⟩ := u64_prefixFree _ _ _ _ h₀
  obtain ⟨rfl, hrs⟩ := u64_prefixFree _ _ _ _ h₁
  exact ⟨rfl, hrs⟩

end RenderStream
