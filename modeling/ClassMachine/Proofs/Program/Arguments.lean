import ClassMachine.Proofs.Descriptor.Grammar
import ClassMachine.Proofs.Program.Entry

/-!
# Where arguments are put

The arguments of the entry method stand in its local variables one behind the other.  Each has its
zero value in the first of its slots, and the second slot of a long or a double stays unset.  When
there are not enough local variables, the row is cut off, and a wide argument may lose its second
slot only.
-/

namespace ClassMachine

namespace DescriptorType

/-- Longs and doubles take two local variables. -/
def isWide : DescriptorType → Bool
  | .long | .double => true
  | _ => false

/-- The number of local variables that values of the types take. -/
def slotCount (types : List DescriptorType) : Nat :=
  (types.map fun type => if type.isWide then 2 else 1).sum

variable {type : DescriptorType} {types before after : List DescriptorType}

theorem size_eq_of_ne_void (h : type ≠ .void) : type.size = if type.isWide then 2 else 1 := by
  cases type <;> simp [size, isWide] at h ⊢

theorem zeroValue_isSome_of_ne_void (h : type ≠ .void) : type.zeroValue.isSome := by
  cases type <;> simp [zeroValue] at h ⊢

@[simp]
theorem slotCount_nil : slotCount [] = 0 := rfl

@[simp]
theorem slotCount_cons (type : DescriptorType) (types : List DescriptorType) :
    slotCount (type :: types) = (if type.isWide then 2 else 1) + slotCount types := by
  simp [slotCount]

@[simp]
theorem slotCount_append (before after : List DescriptorType) :
    slotCount (before ++ after) = slotCount before + slotCount after := by
  simp [slotCount]

/-- The slots of two arguments do not meet. -/
theorem slotCount_add_le_or_le {type' : DescriptorType} {before' after' : List DescriptorType}
    (h : before ++ type :: after = before' ++ type' :: after') :
    slotCount before' ≤ slotCount before ∨
      slotCount before + (if type.isWide then 2 else 1) ≤ slotCount before' := by
  rcases List.append_eq_append_iff.mp h with ⟨between, rfl, hbehind⟩ | ⟨between, rfl, _⟩
  · cases between with
    | nil => simp
    | cons first between =>
        obtain ⟨rfl, _⟩ : type = first ∧ after = between ++ type' :: after' := by
          simpa using hbehind
        right
        simp
  · simp

end DescriptorType

open DescriptorType

theorem MethodType.argSlots_eq {type : MethodType} (h : ∀ arg ∈ type.args, arg ≠ .void) :
    type.argSlots = slotCount type.args := by
  unfold argSlots
  generalize type.args = args at h
  induction args with
  | nil => rfl
  | cons arg args ih =>
      rw [List.forall_mem_cons] at h
      rw [List.foldr_cons, ih h.2, size_eq_of_ne_void h.1, slotCount_cons]

theorem MethodType.wellFormed_of_ofDescriptor {descriptor : String} {type : MethodType}
    (h : ofDescriptor descriptor = .ok type) : type.WellFormed := by
  unfold ofDescriptor at h
  split at h
  next found hparse =>
    cases h
    exact (parse?_eq_some_iff.mp hparse).1
  next => cases h

theorem Member.args_ne_void {m : Member} {pool : Pool} {type : MethodType}
    (h : m.methodType? pool = some type) : ∀ arg ∈ type.args, arg ≠ .void := by
  rcases Option.bind_eq_some_iff.mp h with ⟨descriptor, _, htype⟩
  have hok : MethodType.ofDescriptor descriptor = .ok type := by
    cases hparse : MethodType.ofDescriptor descriptor <;> simp [hparse, Except.toOption] at htype ⊢
    exact htype
  intro arg harg
  exact ((MethodType.wellFormed_of_ofDescriptor hok).args arg harg).1

namespace Program

variable {types before after : List DescriptorType} {type : DescriptorType}
variable {locals : Array (Option Value)} {slot k : Nat}

theorem mem_of_mem_seedLocals {value : Value}
    (h : some value ∈ seedLocals slot locals types) :
    some value ∈ locals ∨ ∃ type ∈ types, type.zeroValue = some value := by
  induction types generalizing slot locals with
  | nil => exact .inl h
  | cons type types ih =>
      rw [seedLocals] at h
      split at h
      · obtain hset | ⟨other, hother, hvalue⟩ := ih h
        · obtain hkept | hvalue := Array.mem_or_eq_of_mem_setIfInBounds hset
          · exact .inl hkept
          · exact .inr ⟨type, List.mem_cons_self, hvalue.symm⟩
        · exact .inr ⟨other, List.mem_cons_of_mem _ hother, hvalue⟩
      · exact .inl h

theorem exists_zeroValue_of_mem_initialLocals {p : Program} {value : Value}
    (h : some value ∈ p.initialLocals) : ∃ type : DescriptorType, type.zeroValue = some value := by
  rcases mem_of_mem_seedLocals h with hunset | ⟨type, _, hvalue⟩
  · simp at hunset
  · exact ⟨type, hvalue⟩

theorem size_seedLocals (slot : Nat) (locals : Array (Option Value)) (types : List DescriptorType) :
    (seedLocals slot locals types).size = locals.size := by
  induction types generalizing slot locals with
  | nil => rfl
  | cons type types ih =>
      rw [seedLocals]
      split
      · rw [ih, Array.size_setIfInBounds]
      · rfl

theorem size_initialLocals (p : Program) : p.initialLocals.size = p.code.maxLocals.toNat := by
  rw [initialLocals, size_seedLocals, Array.size_replicate]

theorem getElem?_seedLocals_of_lt (h : k < slot) :
    (seedLocals slot locals types)[k]? = locals[k]? := by
  induction types generalizing slot locals with
  | nil => rfl
  | cons type types ih =>
      rw [seedLocals]
      split
      · rw [ih (by omega), Array.getElem?_setIfInBounds_ne (by omega)]
      · rfl

theorem getElem?_seedLocals_first (htypes : ∀ other ∈ before ++ type :: after, other ≠ .void)
    (hslot : slot + slotCount before < locals.size) :
    (seedLocals slot locals (before ++ type :: after))[slot + slotCount before]? =
      some type.zeroValue := by
  induction before generalizing slot locals with
  | nil =>
      have hwidth : 0 < type.size := by
        rw [size_eq_of_ne_void (htypes type (by simp))]
        split <;> omega
      rw [slotCount_nil, Nat.add_zero] at hslot ⊢
      rw [List.nil_append, seedLocals, if_pos hslot, getElem?_seedLocals_of_lt (by omega),
        Array.getElem?_setIfInBounds_self_of_lt hslot]
  | cons other before ih =>
      rw [List.cons_append, List.forall_mem_cons] at htypes
      rw [slotCount_cons, ← size_eq_of_ne_void htypes.1, ← Nat.add_assoc] at hslot ⊢
      rw [List.cons_append, seedLocals, if_pos (by omega)]
      exact ih htypes.2 (by simpa using hslot)

theorem getElem?_seedLocals_other (htypes : ∀ type ∈ types, type ≠ .void)
    (h : ∀ before type after, types = before ++ type :: after → slot + slotCount before ≠ k) :
    (seedLocals slot locals types)[k]? = locals[k]? := by
  induction types generalizing slot locals with
  | nil => rfl
  | cons type types ih =>
      rw [List.forall_mem_cons] at htypes
      have hfirst : slot ≠ k := by simpa using h [] type types rfl
      rw [seedLocals]
      split
      · rw [ih htypes.2, Array.getElem?_setIfInBounds_ne hfirst]
        rintro before other after rfl
        rw [size_eq_of_ne_void htypes.1, Nat.add_assoc, ← slotCount_cons]
        exact h (type :: before) other after rfl
      · rfl

/-- The local variables hold the zero value of each argument in the first of its slots, as far as
there are any, and all others are unset. -/
structure SeededWith (types : List DescriptorType) (locals : Array (Option Value)) : Prop where
  seeded : ∀ before type after, types = before ++ type :: after →
    slotCount before < locals.size →
      ∃ value, type.zeroValue = some value ∧ locals[slotCount before]? = some (some value)
  unset : ∀ k < locals.size,
    (∀ before type after, types = before ++ type :: after → slotCount before ≠ k) →
      locals[k]? = some none

namespace SeededWith

theorem second (h : SeededWith types locals) (htypes : types = before ++ type :: after)
    (hwide : type.isWide) (hslot : slotCount before + 1 < locals.size) :
    locals[slotCount before + 1]? = some none := by
  apply h.unset _ hslot
  intro before' type' after' htypes'
  have hapart := slotCount_add_le_or_le (htypes.symm.trans htypes')
  simp only [hwide, if_true] at hapart
  omega

theorem behind (h : SeededWith types locals) (hbehind : slotCount types ≤ k)
    (hk : k < locals.size) : locals[k]? = some none := by
  apply h.unset k hk
  rintro before type after rfl
  simp only [slotCount_append, slotCount_cons] at hbehind
  split at hbehind <;> omega

end SeededWith

theorem seededWith_initialLocals {p : Program} (h : ∀ type ∈ p.argTypes, type ≠ .void) :
    SeededWith p.argTypes p.initialLocals where
  seeded := by
    intro before type after htypes hslot
    rw [size_initialLocals] at hslot
    rw [htypes] at h
    rcases Option.isSome_iff_exists.mp (zeroValue_isSome_of_ne_void (h type (by simp))) with
      ⟨value, hvalue⟩
    refine ⟨value, hvalue, ?_⟩
    rw [initialLocals, htypes, ← hvalue, ← Nat.zero_add (slotCount before)]
    apply getElem?_seedLocals_first h
    simpa using hslot
  unset := by
    intro k hk hnone
    rw [size_initialLocals] at hk
    rw [initialLocals, getElem?_seedLocals_other h (by simpa using hnone)]
    simp [hk]

theorem args_ne_void_of_ofClassFile {c : ClassFile} {p : Program} (h : ofClassFile c = .ok p) :
    (∀ type, p.methodType = some type → ∀ arg ∈ type.args, arg ≠ .void) ∧
      ∀ arg ∈ p.argTypes, arg ≠ .void := by
  rcases ofClassFile_eq_ok_iff.mp h with ⟨m, code, _, _, _, _, rfl⟩
  have hargs : ∀ type, m.methodType? c.pool = some type → ∀ arg ∈ type.args, arg ≠ .void :=
    fun type => Member.args_ne_void
  refine ⟨hargs, ?_⟩
  change ∀ arg ∈ ((m.methodType? c.pool).map (·.args)).getD [], arg ≠ .void
  cases htype : m.methodType? c.pool with
  | none => simp
  | some type => simpa using hargs type htype

/-- The argument types of a program are those in the descriptor of its entry method, and there are
none when it has no descriptor or one that does not parse.  A run starts with as many local variables
as the code asks for.  The first slot of each argument holds its zero value, where the slots of the
arguments before it count two for a long or a double and one for any other type.  All other local
variables are unset: the second slots of wide arguments, and those behind the last argument. -/
theorem initialLocals_of_ofClassFile {c : ClassFile} {p : Program} (h : ofClassFile c = .ok p) :
    (∃ m, c.findMethod? entryName = some m ∧
        (m.descriptor? c.pool = none → p.argTypes = []) ∧
        ∀ descriptor, m.descriptor? c.pool = some descriptor →
          (∀ type, MethodType.ofDescriptor descriptor = .ok type →
            p.methodType = some type ∧ p.argTypes = type.args) ∧
          ∀ error, MethodType.ofDescriptor descriptor = .error error → p.argTypes = []) ∧
      p.initialLocals.size = p.code.maxLocals.toNat ∧
      SeededWith p.argTypes p.initialLocals ∧
      (∀ before type after, p.argTypes = before ++ type :: after → type = .long ∨ type = .double →
        slotCount before + 1 < p.code.maxLocals.toNat →
          p.initialLocals[slotCount before + 1]? = some none) ∧
      ∀ type, p.methodType = some type →
        ∀ k < p.code.maxLocals.toNat, type.argSlots ≤ k → p.initialLocals[k]? = some none := by
  rcases args_ne_void_of_ofClassFile h with ⟨hmethod, hargs⟩
  have hseeded := seededWith_initialLocals hargs
  refine ⟨?_, p.size_initialLocals, hseeded, ?_, ?_⟩
  · rcases ofClassFile_eq_ok_iff.mp h with ⟨m, code, _, _, hfound, _, rfl⟩
    refine ⟨m, hfound, ?_, ?_⟩
    · intro hnone
      simp [argTypes, ofCode, Member.methodType?, hnone]
    · intro descriptor hdescriptor
      constructor
      · intro type htype
        simp [argTypes, ofCode, Member.methodType?, hdescriptor, htype, Except.toOption]
      · intro error herror
        simp [argTypes, ofCode, Member.methodType?, hdescriptor, herror, Except.toOption]
  · intro before type after htypes htype hslot
    apply hseeded.second htypes
    · rcases htype with rfl | rfl <;> rfl
    · rwa [size_initialLocals]
  · intro type htype k hk hbehind
    have htypes : p.argTypes = type.args := by simp [argTypes, htype]
    rw [MethodType.argSlots_eq (hmethod type htype), ← htypes] at hbehind
    apply hseeded.behind hbehind
    rwa [size_initialLocals]

/-- There is no room for the second slot of the double, and none for the argument behind it.  An
array of longs takes one slot. -/
theorem initialLocals_of_ofClassFile_cut :
    let code : Code := ⟨0, 4, [0xb1], [], []⟩
    let m : Member := ⟨9, 1, 2, [code.toAttribute 3]⟩
    let c : ClassFile :=
      { magic := ClassFile.magicNumber
        minorVersion := 0
        majorVersion := 52
        pool := ⟨#[none, some (.utf8 "main"), some (.utf8 "(J[JDI)V"), some (.utf8 "Code")]⟩
        accessFlags := 0x21
        thisClass := 0
        superClass := 0
        interfaces := []
        fields := []
        methods := [m]
        attributes := [] }
    let p := ofCode c.pool (some ⟨[.long, .array .long, .double, .int], .void⟩) code
      #[⟨0, .returnVoid, []⟩] (by decide +kernel)
    ofClassFile c = .ok p ∧ p.initialLocals.size = 4 ∧ p.initialLocals[1]? = some none ∧
      p.initialLocals[2]? = some (some .null) ∧
        p.initialLocals[3]? = some (some (.double .zero)) := by
  intro code m c p
  have hprogram : ofClassFile c = .ok p := by
    have htype : m.methodType? c.pool = some ⟨[.long, .array .long, .double, .int], .void⟩ := by
      decide +kernel
    have hcode : m.code c.pool = .ok code :=
      Member.code_eq_ok_iff.mpr ⟨code.toAttribute 3, by decide +kernel, by decide +kernel⟩
    rw [ofClassFile_eq_ok_iff]
    exact ⟨m, code, _, p.decode_eq, by decide +kernel, hcode, by rw [htype]; rfl⟩
  rcases initialLocals_of_ofClassFile hprogram with ⟨_, hsize, hseeded, hsecond, _⟩
  have hlast : 3 < p.initialLocals.size := by
    rw [hsize]
    decide
  have hmiddle : 2 < p.initialLocals.size := by omega
  rcases hseeded.seeded [.long] (.array .long) [.double, .int] rfl hmiddle with
    ⟨_, ⟨⟩, harray⟩
  rcases hseeded.seeded [.long, .array .long] .double [.int] rfl hlast with ⟨_, ⟨⟩, hdouble⟩
  exact ⟨hprogram, hsize, hsecond [] .long _ rfl (.inl rfl) (by decide), harray, hdouble⟩

end Program

end ClassMachine
