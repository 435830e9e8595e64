import NodeScript.Proofs.Checksum.Division
import NodeScript.Proofs.Compile.Registration

/-!
Names that nearly agree never have one hash. If two texts differ in four consecutive bytes at most,
their polynomials differ by one of degree below 32 times a power of `X`. The generator, of degree 32
and prime to `X`, divides that only if it is zero, so the checksums differ; and everything that is
kept under a checksum keeps the two apart.
-/
namespace NodeScript.Checksum

open Polynomial

theorem polynomial_append (first second : List Bool) : polynomial (first ++ second) =
    polynomial first * X ^ second.length + polynomial second := by
  induction first with
  | nil => simp [polynomial]
  | cons bit rest ih =>
    rw [List.cons_append, polynomial, ih, polynomial, List.length_append]
    cases bit <;> simp [pow_add, add_mul, add_assoc]

theorem degree_polynomial_lt (message : List Bool) :
    (polynomial message).degree < message.length := by
  induction message with
  | nil => simp [polynomial]
  | cons bit rest ih =>
    have longer : ((rest.length : Nat) : WithBot Nat) < ((bit :: rest).length : Nat) :=
      WithBot.coe_lt_coe.mpr (Nat.lt_succ_self _)
    rw [polynomial]
    refine (degree_add_le _ _).trans_lt (max_lt ?_ (ih.trans longer))
    cases bit with
    | false => simp
    | true => simpa using longer

/-- Bits are determined by their number and their polynomial. -/
theorem polynomial_injective {first second : List Bool} (length : first.length = second.length)
    (same : polynomial first = polynomial second) : first = second := by
  induction first generalizing second with
  | nil => exact (List.length_eq_zero_iff.mp length.symm).symm
  | cons bit rest ih =>
    obtain _ | ⟨bit', rest'⟩ := second
    · simp at length
    · have shorter : rest.length = rest'.length := Nat.succ.inj length
      have below (others : List Bool) : (polynomial others).coeff others.length = 0 :=
        coeff_eq_zero_of_degree_lt (degree_polynomial_lt others)
      -- The highest coefficient is the first bit.
      have top := congrArg (·.coeff rest.length) same
      simp only [polynomial, coeff_add, below rest] at top
      rw [shorter, below rest'] at top
      obtain rfl : bit = bit' := by
        cases bit <;> cases bit' <;> simp at top ⊢
      rw [polynomial, polynomial, shorter] at same
      rw [ih shorter (add_left_cancel same)]

theorem isCoprime_generator : IsCoprime generator X := by
  have split : generator = 1 + X * (X ^ 31 + X ^ 25 + X ^ 22 + X ^ 21 + X ^ 15 + X ^ 11 + X ^ 10
      + X ^ 9 + X ^ 7 + X ^ 6 + X ^ 4 + X ^ 3 + X + 1) := by
    rw [generator]
    ring
  rw [split]
  exact isCoprime_one_left.add_mul_left_left _

@[simp] theorem length_bits (byte : UInt8) : (bits byte).length = 8 := by simp [bits]

theorem bits_injective {byte other : UInt8} (same : bits byte = bits other) : byte = other := by
  refine UInt8.toNat_inj.mp (Nat.eq_of_testBit_eq fun i => ?_)
  rcases Nat.lt_or_ge i 8 with inside | beyond
  · exact List.map_inj_left.mp same i (List.mem_range.mpr inside)
  · have large : 2 ^ 8 ≤ 2 ^ i := Nat.pow_le_pow_right (by decide) beyond
    rw [Nat.testBit_lt_two_pow (Nat.lt_of_lt_of_le byte.toNat_lt large),
      Nat.testBit_lt_two_pow (Nat.lt_of_lt_of_le other.toNat_lt large)]

theorem length_flatMap_bits (bytes : List UInt8) :
    (bytes.flatMap bits).length = 8 * bytes.length := by
  induction bytes with
  | nil => rfl
  | cons byte rest ih =>
    rw [List.flatMap_cons, List.length_append, length_bits, ih, List.length_cons]
    omega

theorem flatMap_bits_injective {bytes others : List UInt8} (length : bytes.length = others.length)
    (same : bytes.flatMap bits = others.flatMap bits) : bytes = others := by
  induction bytes generalizing others with
  | nil => exact (List.length_eq_zero_iff.mp length.symm).symm
  | cons byte rest ih =>
    obtain _ | ⟨other, rest'⟩ := others
    · simp at length
    · obtain ⟨first, behind⟩ := List.append_inj same (by simp)
      rw [bits_injective first, ih (Nat.succ.inj length) behind]

/-- Messages of one checksum differ by a multiple of the generator. -/
theorem generator_dvd {first second : List Bool} (length : first.length = second.length)
    (same : bitwise first = bitwise second) :
    generator ∣ polynomial first - polynomial second := by
  obtain ⟨q, divided⟩ := residue_foldl first 0xFFFFFFFF
  obtain ⟨q', divided'⟩ := residue_foldl second 0xFFFFFFFF
  have registers : first.foldl absorbBit 0xFFFFFFFF = second.foldl absorbBit 0xFFFFFFFF :=
    UInt32.not_inj.mp same
  rw [registers, length] at divided
  have multiple : (polynomial first - polynomial second) * X ^ 32 = generator * (q - q') := by
    linear_combination divided' - divided
  exact (isCoprime_generator.pow_right (n := 32)).dvd_of_dvd_mul_right ⟨q - q', multiple⟩

/-- Bits of one checksum that differ within 32 consecutive ones do not differ. -/
theorem eq_of_bitwise_eq {before middle middle' behind : List Bool}
    (length : middle.length = middle'.length) (short : middle.length ≤ 32)
    (same : bitwise (before ++ middle ++ behind) = bitwise (before ++ middle' ++ behind)) :
    middle = middle' := by
  have multiple := generator_dvd (by simp [length]) same
  have shifted : polynomial (before ++ middle ++ behind) -
      polynomial (before ++ middle' ++ behind) =
      (polynomial middle - polynomial middle') * X ^ behind.length := by
    simp only [polynomial_append, length]
    ring
  rw [shifted] at multiple
  have divides := isCoprime_generator.pow_right.dvd_of_dvd_mul_right multiple
  have low (others : List Bool) (few : others.length ≤ 32) : (polynomial others).degree < 32 :=
    (degree_polynomial_lt others).trans_le (by exact_mod_cast few)
  have small : (polynomial middle - polynomial middle').degree < generator.degree := by
    rw [degree_generator]
    exact (degree_sub_le _ _).trans_lt (max_lt (low _ short) (low _ (length ▸ short)))
  by_contra differ
  have nonzero : polynomial middle - polynomial middle' ≠ 0 := fun zero =>
    differ (polynomial_injective length (sub_eq_zero.mp zero))
  exact monic_generator.not_dvd_of_degree_lt nonzero small divides

end NodeScript.Checksum

namespace NodeScript

open Checksum (bits ofBytes_eq_bitwise eq_of_bitwise_eq length_flatMap_bits flatMap_bits_injective)
open Variable (table slotOf)

/-- Texts of one length in bytes that differ, and differ within four consecutive bytes. -/
structure NearlyEqual (a b : String) : Prop where
  length : a.toUTF8.toList.length = b.toUTF8.toList.length
  differ : a.toUTF8.toList ≠ b.toUTF8.toList
  within : ∃ start, ∀ i, i < start ∨ start + 4 ≤ i → a.toUTF8.toList[i]? = b.toUTF8.toList[i]?

/-- A list is what stands before four of its items, those, and what stands behind. -/
theorem take_window_drop {α : Type} (items : List α) (start : Nat) :
    items.take start ++ (items.drop start).take 4 ++ items.drop (start + 4) = items := by
  rw [← List.drop_drop, List.append_assoc, List.take_append_drop, List.take_append_drop]

theorem NearlyEqual.crc32_ne {a b : String} (near : NearlyEqual a b) : crc32 a ≠ crc32 b := by
  obtain ⟨length, differ, start, agree⟩ := near
  rw [crc32, crc32]
  generalize a.toUTF8.toList = bytes at length differ agree
  generalize b.toUTF8.toList = others at length differ agree
  have before : others.take start = bytes.take start := by
    refine List.ext_getElem? fun i => ?_
    rw [List.getElem?_take, List.getElem?_take]
    split
    · exact (agree i (.inl ‹_›)).symm
    · rfl
  have behind : others.drop (start + 4) = bytes.drop (start + 4) := by
    refine List.ext_getElem? fun i => ?_
    rw [List.getElem?_drop, List.getElem?_drop]
    exact (agree _ (.inr (Nat.le_add_right _ i))).symm
  have split (items : List UInt8) : items.flatMap bits =
      (items.take start).flatMap bits ++ ((items.drop start).take 4).flatMap bits
        ++ (items.drop (start + 4)).flatMap bits := by
    rw [← List.flatMap_append, ← List.flatMap_append, take_window_drop]
  have window : ((bytes.drop start).take 4).length = ((others.drop start).take 4).length := by
    simp [length]
  intro same
  rw [ofBytes_eq_bitwise, ofBytes_eq_bitwise, split bytes, split others, before, behind] at same
  have middle := eq_of_bitwise_eq
    (by rw [length_flatMap_bits, length_flatMap_bits, window])
    (by rw [length_flatMap_bits, List.length_take]; omega) same
  refine differ ?_
  rw [← take_window_drop bytes start, ← take_window_drop others start, before, behind,
    flatMap_bits_injective window middle]

namespace Registry

/-- A registration is found under its hash, and nothing changes under any other. -/
theorem resolve?_register (r : Registry) (hash other : UInt32)
    (result : List UInt32 → UInt32 → Int32) :
    (r.register hash result).resolve? other =
      if hash = other then some ⟨r.functions.length, hash, result⟩ else r.resolve? other := by
  rw [resolve?, register, List.reverse_append, List.reverse_singleton, List.singleton_append,
    List.find?_cons, resolve?]
  by_cases same : hash = other
  · rw [if_pos same, beq_iff_eq.mpr same]
  · rw [if_neg same, beq_eq_false_iff_ne.mpr same]

end Registry

namespace Layout

/-- The code of a node calls through the global at a slot. -/
def CallsThrough (g : Graph) (layout : Layout) (program : Program) (node : Node) (slot : Slot) :
    Prop :=
  ∃ (pc : Nat) (argument : Operand) (result : Slot), Inside g (layout.address g) node pc ∧
    program.code[pc]? = some (.call slot argument result)

variable {g : Graph} {after : List Uuid} {layout : Layout} {program : Program} {node : Node}
  {name : String} {value : UInt32}

/-- A Function node calls through the global for the hash of its name. -/
theorem callsThrough (laid : Chain.LaysAll g Trigger.all [] layout after)
    (emitted : unaimed program.code.toList = unaimed (layout.instructions g))
    (member : node ∈ layout.nodes) (kind : node.kind = .function name value) :
    layout.CallsThrough g program node (slotOf (layout.vars g) (.function (crc32 name))) := by
  have code (vars : List Variable) (target : Addr) : node.code g vars target =
      [.setLocal 0 (Int64.ofNat value.toNat),
        .call (slotOf vars (.function (crc32 name))) (.frame 0)
          (slotOf vars (.result node.uuid))] := by
    simp [Node.code, Node.constants, Node.operation, kind, Node.bindings]
  have two : node.size g = 2 := by rw [Node.size, code]; rfl
  obtain ⟨exit, block⟩ := block_of_mem laid (List.Subset.refl _) member
  have placed := block.block
  rw [code] at placed
  have stands := getElem?_unaimed emitted (layout.address g node.uuid + 1)
  rw [placed.getElem? (Nat.lt_succ_self 1), eq_comm] at stands
  obtain ⟨instruction, found, same⟩ := Option.map_eq_some_iff.mp stands.symm
  obtain rfl := Instruction.eq_call_of_unaimed same
  exact ⟨_, _, _, ⟨Nat.le_succ _, by omega⟩, found⟩

/-- What the global for a function holds. -/
theorem global_function (few : (layout.vars g).length ≤ 65535)
    (declared : program.globals = (table (layout.vars g)).map Declaration.global)
    (member : node ∈ layout.nodes) (kind : node.kind = .function name value) :
    program.globals[(slotOf (layout.vars g) (.function (crc32 name))).toNat]? =
      some ⟨"fn_" ++ hex32 (crc32 name), .function (crc32 name), 0⟩ := by
  have asked : .function (crc32 name) ∈ layout.vars g :=
    function_vars.mpr ⟨node, member, name, value, kind, rfl⟩
  simp [declared, table, Variable.getElem?_slotOf asked (Nat.le_succ_of_le few),
    Variable.declaration, Variable.name, Variable.kind]

end Layout

/-- Names that nearly agree are kept apart everywhere. Their checksums differ, and so do the names
that are generated from these; functions registered under both are both found; and in the unit of
any graph that compiles, nodes that call them call through globals of their own. -/
theorem nearly_equal_names_stay_apart {a b : String} (near : NearlyEqual a b) :
    crc32 a ≠ crc32 b ∧ "fn_" ++ hex32 (crc32 a) ≠ "fn_" ++ hex32 (crc32 b) ∧
      (∀ (r : Registry) (f f' : List UInt32 → UInt32 → Int32),
        let both := (r.register (crc32 a) f).register (crc32 b) f'
        (both.resolve? (crc32 a)).map (·.result) = some f ∧
          (both.resolve? (crc32 b)).map (·.result) = some f') ∧
      ∀ {nodes : List Node} {links : List Link} {g : Graph},
        Graph.ofParts nodes links = .ok g →
        ∀ {asset : String} {functions : Option Registry} {uuid : Uuid} {script : Script},
        (Job.compile ⟨g, asset, functions⟩ uuid).value = .ok script →
        ∃ layout : Layout, Chain.ofGraph g asset = .ok layout ∧
          ∀ node ∈ layout.nodes, ∀ node' ∈ layout.nodes, ∀ value value',
            node.kind = .function a value → node'.kind = .function b value' →
            ∃ slot slot', layout.CallsThrough g script.program node slot ∧
              layout.CallsThrough g script.program node' slot' ∧ slot ≠ slot' ∧
              script.program.globals[slot.toNat]? =
                some ⟨"fn_" ++ hex32 (crc32 a), .function (crc32 a), 0⟩ ∧
              script.program.globals[slot'.toNat]? =
                some ⟨"fn_" ++ hex32 (crc32 b), .function (crc32 b), 0⟩ := by
  have differ := near.crc32_ne
  have named : "fn_" ++ hex32 (crc32 a) ≠ "fn_" ++ hex32 (crc32 b) := fun same =>
    differ (Variable.function.inj (Variable.name_injective same))
  refine ⟨differ, named, fun r f f' => ?_, ?_⟩
  · simp only [Registry.resolve?_register, if_neg differ.symm, if_true, Option.map_some, and_self]
  · intro nodes links g accepted asset functions uuid script compiled
    have formed := Graph.wellFormed_of_ofParts accepted
    obtain ⟨layout, after, success, laid, few, emitted, declared⟩ :=
      Job.unaimed_of_compile formed compiled
    refine ⟨layout, success, fun node member node' member' value value' kind kind' => ?_⟩
    have found := Layout.global_function few declared member kind
    have found' := Layout.global_function few declared member' kind'
    refine ⟨_, _, Layout.callsThrough laid emitted member kind,
      Layout.callsThrough laid emitted member' kind', ?_, found, found'⟩
    intro same
    rw [same, found'] at found
    exact named (congrArg Global.name (Option.some.inj found)).symm

/-- A graph that calls two functions whose names differ in their last four letters. -/
def Graph.gates : Graph where
  nodes := [⟨1, .start, .origin⟩, ⟨2, .function "open_door" 5, .origin⟩,
    ⟨3, .function "open_gate" 6, .origin⟩]
  links := [⟨1, 0, 2, 0⟩, ⟨2, 0, 3, 0⟩]

theorem Graph.gates_accepted :
    Graph.ofParts Graph.gates.nodes Graph.gates.links = .ok Graph.gates := by
  decide +kernel

/-- Both nodes of the unit have globals of their own. -/
theorem nearly_equal_names_stay_apart_gates :
    NearlyEqual "open_door" "open_gate" ∧ crc32 "open_door" ≠ crc32 "open_gate" ∧
      ∃ script layout slot slot',
        (Job.compile ⟨Graph.gates, "gates", none⟩ 9).value = .ok script ∧
        Layout.CallsThrough Graph.gates layout script.program
          ⟨2, .function "open_door" 5, .origin⟩ slot ∧
        Layout.CallsThrough Graph.gates layout script.program
          ⟨3, .function "open_gate" 6, .origin⟩ slot' ∧ slot ≠ slot' := by
  have near : NearlyEqual "open_door" "open_gate" := by
    have door : "open_door".toUTF8.toList = [111, 112, 101, 110, 95, 100, 111, 111, 114] := by
      decide +kernel
    have gate : "open_gate".toUTF8.toList = [111, 112, 101, 110, 95, 103, 97, 116, 101] := by
      decide +kernel
    refine ⟨by rw [door, gate]; rfl, by rw [door, gate]; decide, 5, fun i outside => ?_⟩
    rw [door, gate]
    rcases outside with less | more
    · interval_cases i <;> rfl
    · rw [List.getElem?_eq_none more, List.getElem?_eq_none more]
  obtain ⟨script, compiled⟩ := @Job.compile_of_small ⟨Graph.gates, "gates", none⟩
    (Graph.wellFormed_of_ofParts Graph.gates_accepted) (by decide) 9
  obtain ⟨differ, -, -, apart⟩ := nearly_equal_names_stay_apart near
  obtain ⟨layout, laid, calls⟩ := apart Graph.gates_accepted compiled
  have order : (Chain.ofGraph Graph.gates "gates") =
      .ok [(.init, .step ⟨2, .function "open_door" 5, .origin⟩
        (.step ⟨3, .function "open_gate" 6, .origin⟩ .stop))] := by rfl
  obtain rfl := Except.ok.inj (order.symm.trans laid)
  obtain ⟨slot, slot', first, second, other, -⟩ := calls ⟨2, .function "open_door" 5, .origin⟩
    (.head _) ⟨3, .function "open_gate" 6, .origin⟩ (.tail _ (.head _)) 5 6 rfl rfl
  exact ⟨near, differ, script, _, slot, slot', compiled, first, second, other⟩

end NodeScript
