import ClassMachine.Proofs.Program.Entry

/-!
# The source line of an offset

Line tables stand anywhere among the attributes of a code, and there may be bytes behind the
entries of a table.  Either each table is long enough for the entries that it announces, and the
lines of the code are those of its tables in order, or there are no lines at all.

One entry governs an offset: of the entries that do not start past it the one that starts last,
and the last of several such.  Without two entries at one start, the governing entry does not
depend on the order of the entries or on the tables they stand in.
-/

namespace ClassMachine

theorem BigEndian.exists_u16 {word : List UInt8} (h : word.length = 2) :
    ∃ n : UInt16, ofBytes word = n.toNat ∧ toBytes 2 n.toNat = word := by
  have hlt := ofBytes_lt word
  rw [h] at hlt
  have hvalue : (UInt16.ofNat (ofBytes word)).toNat = ofBytes word :=
    UInt16.toNat_ofNat_of_lt' hlt
  exact ⟨UInt16.ofNat (ofBytes word), hvalue.symm, by rw [hvalue, ← h, toBytes_ofBytes]⟩

namespace LineNumber

theorem exists_of_size_le {bytes : List UInt8} (h : size ≤ bytes.length) :
    ∃ entry rest, bytes = toBytes entry ++ rest := by
  rw [size] at h
  have hstart : (bytes.take 2).length = 2 := by
    simp only [List.length_take]
    omega
  have hline : ((bytes.drop 2).take 2).length = 2 := by
    simp only [List.length_take, List.length_drop]
    omega
  rcases BigEndian.exists_u16 hstart with ⟨startPc, _, hstart⟩
  rcases BigEndian.exists_u16 hline with ⟨line, _, hline⟩
  refine ⟨⟨startPc, line⟩, (bytes.drop 2).drop 2, ?_⟩
  rw [toBytes, hstart, hline, List.append_assoc, List.take_append_drop, List.take_append_drop]

end LineNumber

namespace LineTable

variable {pool : Pool} {a : Attribute} {attributes : List Attribute}
variable {info : List UInt8} {lines : List LineNumber} {tables : List (List LineNumber)}

/-! ## Tables among attributes -/

/-- The payload ends before its count does, or before the entries that the count announces. -/
def TooShort (info : List UInt8) : Prop :=
  info.length < 2 ∨ info.length < 2 + BigEndian.ofBytes (info.take 2) * LineNumber.size

theorem length_flatMap_toBytes (lines : List LineNumber) :
    (lines.flatMap LineNumber.toBytes).length = lines.length * LineNumber.size := by
  simp [List.length_flatMap, LineNumber.length_toBytes]

theorem exists_entries {count : Nat} {bytes : List UInt8}
    (h : count * LineNumber.size ≤ bytes.length) :
    ∃ (lines : List LineNumber) (rest : List UInt8),
      lines.length = count ∧ bytes = lines.flatMap LineNumber.toBytes ++ rest := by
  induction count generalizing bytes with
  | zero => exact ⟨[], bytes, rfl, rfl⟩
  | succ count ih =>
      rw [Nat.succ_mul] at h
      have hfirst : LineNumber.size ≤ bytes.length := by omega
      rcases LineNumber.exists_of_size_le hfirst with ⟨entry, behind, rfl⟩
      have hothers : count * LineNumber.size ≤ behind.length := by
        rw [List.length_append, LineNumber.length_toBytes] at h
        omega
      rcases ih hothers with ⟨lines, rest, rfl, rfl⟩
      exact ⟨entry :: lines, rest, by simp, by simp⟩

theorem Holds.not_tooShort (h : Holds info lines) : ¬ TooShort info := by
  rcases h with ⟨hlength, rest, rfl⟩
  have hcount : BigEndian.ofBytes ((toBytes lines ++ rest).take 2) = lines.length := by
    rw [toBytes, List.append_assoc, List.take_left' (BigEndian.toBytes_length 2 _)]
    exact BigEndian.ofBytes_toBytes_of_lt hlength
  rw [TooShort, hcount]
  simp only [toBytes, List.length_append, BigEndian.toBytes_length, length_flatMap_toBytes]
  omega

/-- A payload that is long enough holds as many lines as its count announces. -/
theorem exists_holds_iff : (∃ lines, Holds info lines) ↔ ¬ TooShort info := by
  constructor
  · rintro ⟨lines, hlines⟩
    exact hlines.not_tooShort
  · intro hlong
    rw [TooShort, not_or, Nat.not_lt, Nat.not_lt] at hlong
    have hword : (info.take 2).length = 2 := by
      simp only [List.length_take]
      omega
    rcases BigEndian.exists_u16 hword with ⟨count, hvalue, hcount⟩
    have hentries : count.toNat * LineNumber.size ≤ (info.drop 2).length := by
      rw [hvalue] at hlong
      simp only [List.length_drop]
      omega
    rcases exists_entries hentries with ⟨lines, rest, hlength, hrest⟩
    refine ⟨lines, by rw [hlength]; exact count.toNat_lt, rest, ?_⟩
    rw [toBytes, hlength, hcount, List.append_assoc, ← hrest, List.take_append_drop]

/-- The line tables among the attributes hold the lines, table by table.  Attributes of other names
may hold anything. -/
inductive Tabulated (pool : Pool) : List Attribute → List (List LineNumber) → Prop
  | nil : Tabulated pool [] []
  | table {a : Attribute} {attributes : List Attribute} {lines : List LineNumber}
      {tables : List (List LineNumber)} (hname : pool.text? a.nameIndex = some attributeName)
      (hlines : Holds a.info lines) (hrest : Tabulated pool attributes tables) :
      Tabulated pool (a :: attributes) (lines :: tables)
  | other {a : Attribute} {attributes : List Attribute} {tables : List (List LineNumber)}
      (hname : pool.text? a.nameIndex ≠ some attributeName)
      (hrest : Tabulated pool attributes tables) : Tabulated pool (a :: attributes) tables

/-- One of the line tables among the attributes is too short. -/
def Broken (pool : Pool) (attributes : List Attribute) : Prop :=
  ∃ a ∈ attributes, pool.text? a.nameIndex = some attributeName ∧ TooShort a.info

theorem tabulated_cons_of_named (hname : pool.text? a.nameIndex = some attributeName) :
    Tabulated pool (a :: attributes) tables ↔
      ∃ lines rest, Holds a.info lines ∧ Tabulated pool attributes rest ∧ tables = lines :: rest := by
  constructor
  · intro h
    cases h with
    | table _ hlines hrest => exact ⟨_, _, hlines, hrest, rfl⟩
    | other hother _ => exact absurd hname hother
  · rintro ⟨lines, rest, hlines, hrest, rfl⟩
    exact .table hname hlines hrest

theorem tabulated_cons_of_not_named (hname : pool.text? a.nameIndex ≠ some attributeName) :
    Tabulated pool (a :: attributes) tables ↔ Tabulated pool attributes tables := by
  constructor
  · intro h
    cases h with
    | table hnamed _ _ => exact absurd hnamed hname
    | other _ hrest => exact hrest
  · exact .other hname

theorem tabulated_iff_forall₂ :
    Tabulated pool attributes tables ↔
      List.Forall₂ (fun a lines => Holds a.info lines)
        (attributes.filter fun a => pool.text? a.nameIndex == some attributeName) tables := by
  induction attributes generalizing tables with
  | nil =>
      rw [List.filter_nil, List.forall₂_nil_left_iff]
      constructor
      · intro h
        cases h
        rfl
      · rintro rfl
        exact .nil
  | cons a attributes ih =>
      by_cases hname : pool.text? a.nameIndex = some attributeName
      · rw [tabulated_cons_of_named hname, List.filter_cons_of_pos (by simpa using hname),
          List.forall₂_cons_left_iff]
        simp only [ih]
      · rw [tabulated_cons_of_not_named hname, List.filter_cons_of_neg (by simpa using hname), ih]

theorem exists_tabulated_iff :
    (∃ tables, Tabulated pool attributes tables) ↔ ¬ Broken pool attributes := by
  induction attributes with
  | nil => simpa [Broken] using ⟨[], Tabulated.nil⟩
  | cons a attributes ih =>
      by_cases hname : pool.text? a.nameIndex = some attributeName
      · have hbroken : Broken pool (a :: attributes) ↔ TooShort a.info ∨ Broken pool attributes := by
          simp [Broken, hname]
        rw [hbroken, not_or, ← ih, ← exists_holds_iff]
        simp only [tabulated_cons_of_named hname]
        constructor
        · rintro ⟨_, lines, rest, hlines, hrest, rfl⟩
          exact ⟨⟨lines, hlines⟩, rest, hrest⟩
        · rintro ⟨⟨lines, hlines⟩, rest, hrest⟩
          exact ⟨_, lines, rest, hlines, hrest, rfl⟩
      · have hbroken : Broken pool (a :: attributes) ↔ Broken pool attributes := by
          simp [Broken, hname]
        rw [hbroken, ← ih]
        simp only [tabulated_cons_of_not_named hname]

/-! ## The governing entry -/

variable {offset : Nat} {before after : List LineNumber} {entry best : LineNumber}

/-- Among the entries that do not start past the offset, the one between the others starts last,
and is the last of those at its start. -/
structure Governs (offset : Nat) (before : List LineNumber) (entry : LineNumber)
    (after : List LineNumber) : Prop where
  started : entry.startPc.toNat ≤ offset
  before_le : ∀ other ∈ before, other.startPc.toNat ≤ offset → other.startPc ≤ entry.startPc
  after_lt : ∀ other ∈ after, other.startPc.toNat ≤ offset → other.startPc < entry.startPc

theorem Governs.le (h : Governs offset before entry after) :
    ∀ other ∈ before ++ entry :: after, other.startPc.toNat ≤ offset →
      other.startPc ≤ entry.startPc := by
  intro other hother hstarted
  rcases List.mem_append.mp hother with hbefore | hrest
  · exact h.before_le other hbefore hstarted
  · rcases List.mem_cons.mp hrest with rfl | hafter
    · exact UInt16.le_refl _
    · exact UInt16.le_of_lt (h.after_lt other hafter hstarted)

theorem entryFor?_append_singleton (lines : List LineNumber) (entry : LineNumber) (offset : Nat) :
    entryFor? (lines ++ [entry]) offset =
      if entry.startPc.toNat ≤ offset then some (later (entryFor? lines offset) entry)
      else entryFor? lines offset := by
  by_cases hstarted : entry.startPc.toNat ≤ offset <;>
    simp [entryFor?, List.filter_append, hstarted]

theorem entryFor?_eq_none_iff :
    entryFor? lines offset = none ↔ ∀ entry ∈ lines, offset < entry.startPc.toNat := by
  induction lines using List.reverseRecOn with
  | nil => simp [entryFor?]
  | append_singleton lines last ih =>
      rw [entryFor?_append_singleton]
      by_cases hstarted : last.startPc.toNat ≤ offset
      · simp [hstarted]
      · rw [if_neg hstarted, ih, List.forall_mem_append]
        simpa using fun _ => Nat.lt_of_not_le hstarted

theorem governs_append_singleton_iff {last : LineNumber} :
    Governs offset before entry (after ++ [last]) ↔
      Governs offset before entry after ∧
        (last.startPc.toNat ≤ offset → last.startPc < entry.startPc) := by
  constructor
  · intro h
    have hafter := List.forall_mem_append.mp h.after_lt
    exact ⟨⟨h.started, h.before_le, hafter.1⟩, hafter.2 last List.mem_cons_self⟩
  · rintro ⟨h, hlast⟩
    refine ⟨h.started, h.before_le, List.forall_mem_append.mpr ⟨h.after_lt, ?_⟩⟩
    simpa using hlast

/-- One more entry takes over when it does not start past the offset, and not in front of the
entry that governed so far. -/
theorem governs_of_entryFor? (h : entryFor? lines offset = some best) :
    ∃ before after, lines = before ++ best :: after ∧ Governs offset before best after := by
  induction lines using List.reverseRecOn generalizing best with
  | nil => cases h
  | append_singleton lines last ih =>
      rw [entryFor?_append_singleton] at h
      by_cases hstarted : last.startPc.toNat ≤ offset
      · rw [if_pos hstarted] at h
        cases hfound : entryFor? lines offset with
        | none =>
            rw [hfound] at h
            cases h
            have hpast := entryFor?_eq_none_iff.mp hfound
            refine ⟨lines, [], rfl, hstarted, ?_, by simp⟩
            intro other hother hother_started
            exact absurd hother_started (Nat.not_le_of_lt (hpast other hother))
        | some found =>
            rw [hfound, later] at h
            rcases ih hfound with ⟨before, after, rfl, hgoverns⟩
            by_cases hlater : found.startPc ≤ last.startPc
            · rw [if_pos hlater] at h
              cases h
              refine ⟨before ++ found :: after, [], rfl, hstarted, ?_, by simp⟩
              intro other hother hother_started
              exact UInt16.le_trans (hgoverns.le other hother hother_started) hlater
            · rw [if_neg hlater] at h
              cases h
              refine ⟨before, after ++ [last], by simp, governs_append_singleton_iff.mpr ?_⟩
              exact ⟨hgoverns, fun _ => UInt16.not_le.mp hlater⟩
      · rw [if_neg hstarted] at h
        rcases ih h with ⟨before, after, rfl, hgoverns⟩
        refine ⟨before, after ++ [last], by simp, governs_append_singleton_iff.mpr ?_⟩
        exact ⟨hgoverns, fun hlast => absurd hlast hstarted⟩

theorem Governs.entryFor?_eq (h : Governs offset before entry after) :
    entryFor? (before ++ entry :: after) offset = some entry := by
  induction after using List.reverseRecOn with
  | nil =>
      rw [entryFor?_append_singleton, if_pos h.started]
      cases hfound : entryFor? before offset with
      | none => rfl
      | some found =>
          rcases governs_of_entryFor? hfound with ⟨_, _, rfl, hgoverns⟩
          rw [later, if_pos (h.before_le found (by simp) hgoverns.started)]
  | append_singleton after last ih =>
      rcases governs_append_singleton_iff.mp h with ⟨hgoverns, hlast⟩
      rw [← List.cons_append, ← List.append_assoc, entryFor?_append_singleton, ih hgoverns]
      by_cases hstarted : last.startPc.toNat ≤ offset
      · rw [if_pos hstarted, later, if_neg (UInt16.not_le.mpr (hlast hstarted))]
      · rw [if_neg hstarted]

theorem entryFor?_eq_some_iff :
    entryFor? lines offset = some best ↔
      ∃ before after, lines = before ++ best :: after ∧ Governs offset before best after := by
  constructor
  · exact governs_of_entryFor?
  · rintro ⟨before, after, rfl, hgoverns⟩
    exact hgoverns.entryFor?_eq

/-- When no two entries start at the same offset, no position decides between them. -/
theorem entryFor?_eq_some_iff_of_nodup (hnodup : (lines.map (·.startPc)).Nodup) :
    entryFor? lines offset = some best ↔
      best ∈ lines ∧ best.startPc.toNat ≤ offset ∧
        ∀ other ∈ lines, other.startPc.toNat ≤ offset → other.startPc ≤ best.startPc := by
  rw [entryFor?_eq_some_iff]
  constructor
  · rintro ⟨before, after, rfl, hgoverns⟩
    exact ⟨by simp, hgoverns.started, hgoverns.le⟩
  · rintro ⟨hbest, hstarted, hle⟩
    rcases List.append_of_mem hbest with ⟨before, after, rfl⟩
    refine ⟨before, after, rfl, hstarted, ?_, ?_⟩
    · intro other hother
      exact hle other (by simp [hother])
    · intro other hother hother_started
      have hapart : best.startPc ≠ other.startPc := by
        rw [List.map_append, List.map_cons] at hnodup
        have hrest := (List.nodup_cons.mp hnodup.of_append_right).1
        intro hsame
        exact hrest (hsame ▸ List.mem_map_of_mem hother)
      exact UInt16.lt_of_le_of_ne (hle other (by simp [hother]) hother_started) hapart.symm

theorem entryFor?_eq_of_perm {lines' : List LineNumber} (hperm : lines.Perm lines')
    (hnodup : (lines.map (·.startPc)).Nodup) (offset : Nat) :
    entryFor? lines offset = entryFor? lines' offset := by
  have hnodup' : (lines'.map (·.startPc)).Nodup := (hperm.map _).nodup_iff.mp hnodup
  ext best
  rw [entryFor?_eq_some_iff_of_nodup hnodup, entryFor?_eq_some_iff_of_nodup hnodup']
  simp only [hperm.mem_iff]

end LineTable

namespace Code

open LineTable

variable {code : Code} {pool : Pool} {lines : List LineNumber}

theorem lineNumbers_eq_ok_iff :
    code.lineNumbers pool = .ok lines ↔
      ∃ tables, Tabulated pool code.attributes tables ∧ lines = tables.flatten := by
  simp only [lineNumbers, lineNumbersWith_eq_ok_iff, tabulated_iff_forall₂, lineTables]

theorem exists_lineNumbers_eq_error_iff :
    (∃ error, code.lineNumbers pool = .error error) ↔ Broken pool code.attributes := by
  constructor
  · rintro ⟨error, herror⟩
    by_contra hbroken
    rcases exists_tabulated_iff.mpr hbroken with ⟨tables, htables⟩
    have hok := lineNumbers_eq_ok_iff.mpr ⟨tables, htables, rfl⟩
    simp [herror] at hok
  · intro hbroken
    cases hlines : code.lineNumbers pool with
    | error error => exact ⟨error, rfl⟩
    | ok lines =>
        rcases lineNumbers_eq_ok_iff.mp hlines with ⟨tables, htables, _⟩
        exact absurd hbroken (exists_tabulated_iff.mp ⟨tables, htables⟩)

end Code

namespace Program

open LineTable

variable {c : ClassFile} {p : Program} {tables : List (List LineNumber)}

theorem lines_of_tabulated (h : ofClassFile c = .ok p)
    (htables : Tabulated p.pool p.code.attributes tables) : p.lines = tables.flatten := by
  rw [lines_of_ofClassFile h, Code.lineNumbers_eq_ok_iff.mpr ⟨tables, htables, rfl⟩]
  rfl

theorem lines_of_broken (h : ofClassFile c = .ok p) (hbroken : Broken p.pool p.code.attributes) :
    p.lines = [] := by
  rcases Code.exists_lineNumbers_eq_error_iff.mpr hbroken with ⟨error, herror⟩
  rw [lines_of_ofClassFile h, herror]
  rfl

/-- The lines of a code are those of its line tables in order, wherever the tables stand among its
attributes and whatever is behind their entries.  A single table that is too short makes reading
the lines fail, and then a program knows the line of no offset.

Otherwise the line of an offset is that of its governing entry, and is unknown exactly when all
entries start past the offset.  When no two entries start at the same offset, neither their order
nor the tables they stand in matter. -/
theorem lineFor?_of_tabulated :
    (∀ (code : Code) (pool : Pool),
      (∀ tables, Tabulated pool code.attributes tables →
        code.lineNumbers pool = .ok tables.flatten) ∧
      ((∃ error, code.lineNumbers pool = .error error) ↔ Broken pool code.attributes)) ∧
    (∀ (c : ClassFile) (p : Program), ofClassFile c = .ok p →
      (∀ tables, Tabulated p.pool p.code.attributes tables →
        ∀ offset, p.lineFor? offset = LineTable.lineFor? tables.flatten offset) ∧
      (Broken p.pool p.code.attributes → ∀ offset, p.lineFor? offset = none)) ∧
    (∀ (lines : List LineNumber) (offset : Nat),
      (LineTable.lineFor? lines offset = none ↔ ∀ entry ∈ lines, offset < entry.startPc.toNat) ∧
      ∀ line, LineTable.lineFor? lines offset = some line ↔
        ∃ before entry after, lines = before ++ entry :: after ∧
          Governs offset before entry after ∧ entry.line = line) ∧
    ∀ tables tables' : List (List LineNumber), tables.flatten.Perm tables'.flatten →
      (tables.flatten.map (·.startPc)).Nodup →
        ∀ offset, LineTable.lineFor? tables.flatten offset =
          LineTable.lineFor? tables'.flatten offset := by
  refine ⟨?_, ?_, ?_, ?_⟩
  · intro code pool
    constructor
    · intro tables htables
      exact Code.lineNumbers_eq_ok_iff.mpr ⟨tables, htables, rfl⟩
    · exact Code.exists_lineNumbers_eq_error_iff
  · intro c p h
    constructor
    · intro tables htables offset
      rw [Program.lineFor?, lines_of_tabulated h htables]
    · intro hbroken offset
      rw [Program.lineFor?, lines_of_broken h hbroken]
      rfl
  · intro lines offset
    constructor
    · rw [LineTable.lineFor?, Option.map_eq_none_iff, entryFor?_eq_none_iff]
    · intro line
      rw [LineTable.lineFor?, Option.map_eq_some_iff]
      simp only [entryFor?_eq_some_iff]
      constructor
      · rintro ⟨entry, ⟨before, after, hlines, hgoverns⟩, hline⟩
        exact ⟨before, entry, after, hlines, hgoverns, hline⟩
      · rintro ⟨before, entry, after, hlines, hgoverns, hline⟩
        exact ⟨entry, ⟨before, after, hlines, hgoverns⟩, hline⟩
  · intro tables tables' hperm hnodup offset
    rw [LineTable.lineFor?, LineTable.lineFor?, entryFor?_eq_of_perm hperm hnodup]

/-- The first table has its entries out of order and a byte behind them, and the second one, with
another attribute between them, starts at an offset of the first.  One table more with a count and
no entries takes all lines away. -/
theorem lineFor?_of_tabulated_unordered :
    let pool : Pool :=
      ⟨#[none, some (.utf8 "main"), some (.utf8 "Code"), some (.utf8 "LineNumberTable"),
        some (.utf8 "Padding")]⟩
    let attributes : List Attribute :=
      [⟨3, [0, 2, 0, 3, 0, 30, 0, 1, 0, 10, 0xff]⟩, ⟨4, [0]⟩, ⟨3, [0, 1, 0, 3, 0, 31]⟩]
    let code : Code := ⟨0, 0, [0xb1], [], attributes⟩
    let broken : Code := ⟨0, 0, [0xb1], [], attributes ++ [⟨3, [0, 1]⟩]⟩
    let c (code : Code) : ClassFile :=
      { magic := ClassFile.magicNumber
        minorVersion := 0
        majorVersion := 52
        pool := pool
        accessFlags := 0x21
        thisClass := 0
        superClass := 0
        interfaces := []
        fields := []
        methods := [⟨9, 1, 0, [code.toAttribute 2]⟩]
        attributes := [] }
    ∃ p p', ofClassFile (c code) = .ok p ∧ ofClassFile (c broken) = .ok p' ∧
      p.lineFor? 0 = none ∧ p.lineFor? 2 = some 10 ∧ p.lineFor? 7 = some 31 ∧
        (∃ error, broken.lineNumbers pool = .error error) ∧ p'.lineFor? 7 = none ∧
          LineTable.lineFor? [⟨3, 30⟩, ⟨1, 10⟩] 2 = LineTable.lineFor? [⟨1, 10⟩, ⟨3, 30⟩] 2 := by
  intro pool attributes code broken c
  have hdecode : Bytecode.decode [0xb1] = .ok #[⟨0, .returnVoid, []⟩] := by decide +kernel
  let p := ofCode pool none code _ hdecode
  let p' := ofCode pool none broken _ hdecode
  have hprogram : ofClassFile (c code) = .ok p := by
    have hcode : Member.code ⟨9, 1, 0, [code.toAttribute 2]⟩ pool = .ok code :=
      Member.code_eq_ok_iff.mpr ⟨code.toAttribute 2, by decide +kernel, by decide +kernel⟩
    exact ofClassFile_eq_ok_iff.mpr ⟨_, code, _, hdecode, by decide +kernel, hcode, rfl⟩
  have hbroken_program : ofClassFile (c broken) = .ok p' := by
    have hcode : Member.code ⟨9, 1, 0, [broken.toAttribute 2]⟩ pool = .ok broken :=
      Member.code_eq_ok_iff.mpr ⟨broken.toAttribute 2, by decide +kernel, by decide +kernel⟩
    exact ofClassFile_eq_ok_iff.mpr ⟨_, broken, _, hdecode, by decide +kernel, hcode, rfl⟩
  have htables : Tabulated pool attributes [[⟨3, 30⟩, ⟨1, 10⟩], [⟨3, 31⟩]] := by
    apply Tabulated.table (by decide +kernel) ⟨by decide, [0xff], by decide +kernel⟩
    apply Tabulated.other (by decide +kernel)
    exact .table (by decide +kernel) ⟨by decide, [], by decide +kernel⟩ .nil
  have hbroken : Broken pool broken.attributes :=
    ⟨⟨3, [0, 1]⟩, by simp [broken], by decide +kernel, .inr (by decide +kernel)⟩
  rcases lineFor?_of_tabulated with ⟨hcodes, hprograms, hlines, hperm⟩
  have hlookup := (hprograms _ p hprogram).1 _ htables
  refine ⟨p, p', hprogram, hbroken_program, ?_, ?_, ?_, (hcodes broken pool).2.mpr hbroken,
    (hprograms _ p' hbroken_program).2 hbroken 7,
    hperm [[⟨3, 30⟩, ⟨1, 10⟩]] [[⟨1, 10⟩], [⟨3, 30⟩]] (.swap _ _ _) (by decide) 2⟩
  · rw [hlookup]
    exact (hlines _ 0).1.mpr (by decide)
  · rw [hlookup]
    exact ((hlines _ 2).2 10).mpr
      ⟨[⟨3, 30⟩], ⟨1, 10⟩, [⟨3, 31⟩], rfl, ⟨by decide, by decide, by decide⟩, rfl⟩
  · rw [hlookup]
    exact ((hlines _ 7).2 31).mpr
      ⟨[⟨3, 30⟩, ⟨1, 10⟩], ⟨3, 31⟩, [], rfl, ⟨by decide, by decide, by decide⟩, rfl⟩

end Program

end ClassMachine
