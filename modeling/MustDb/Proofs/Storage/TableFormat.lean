import MustDb.Lib.Format
import MustDb.Proofs.Storage.TableCodec

/-!
# `MustDb.Proofs.Storage.TableFormat`: the table definitions that the decoder accepts

`createTableInfo_deserialize` reads what is on the disk, whatever wrote it. A `RawTable` is a table
as it lies in the stream, before the decoder has seen it: the characters of a name can be any bytes,
and the options of a column are as many bytes as its type asks for. The bounds that the decoder
imposes are fields of these structures.

The decoder accepts the encodings of the raw tables and nothing else (`accepts_createTableInfo`),
and no encoding is the beginning of another (`prefixFree_table`). What it returns is less than what
it took: a name ends at its first zero byte. So a table that was read and is written again has the
bytes that were read exactly when no name has a zero byte (`rewritten_iff`).
-/

set_option autoImplicit false

namespace MustDb.Proofs.Storage

open MustDb.Lib
open MustDb.Storage
open MustDb.Catalog
open MustDb.Parse

/-! ### The format -/

/-- A string in the stream. `malloc(len + 1)` has to have memory. -/
@[ext] structure RawString where
  chars : List UInt8
  inMemory : chars.length + 1 < 2 ^ 64

/-- The string with its length. -/
def RawString.bytes (raw : RawString) : List UInt8 := leBytes 8 raw.chars.length ++ raw.chars

/-- The string in memory. -/
def RawString.text (raw : RawString) : CString := CString.ofBytes raw.chars

/-- The type of a column, from its byte. -/
def typeOfByte (type : UInt8) : SQLType := UInt32.ofNat type.toNat

/-- How many bytes the options of a column take. -/
def optionSize (type : SQLType) : Nat := if type = SQLT_VECTOR then 2 else 0

/-- A column in the stream. -/
@[ext] structure RawColumn where
  name : RawString
  type : UInt8
  options : List UInt8
  length_options : options.length = optionSize (typeOfByte type)

def RawColumn.bytes (raw : RawColumn) : List UInt8 :=
  raw.name.bytes ++ (leBytes 1 raw.type.toNat ++ raw.options)

/-- The dimension that options stand for. -/
def dimOfOptions (uninit : Int16) (type : SQLType) (options : List UInt8) : Int16 :=
  if type = SQLT_VECTOR then (UInt16.ofNat (leNat options)).toInt16 else uninit

/-- The column in memory. -/
def RawColumn.column (uninit : Int16) (i : Nat) (raw : RawColumn) : ColumnDefinition where
  name := raw.name.text
  oid := UInt64.ofNat i
  type := typeOfByte raw.type
  dim := dimOfOptions uninit (typeOfByte raw.type) raw.options

/-- The columns in memory, from position `i` on. -/
def rawColumns (uninit : Nat → Int16) : Nat → List RawColumn → List ColumnDefinition
  | _, [] => []
  | i, raw :: raws => raw.column (uninit i) i :: rawColumns uninit (i + 1) raws

/-- A table in the stream. -/
@[ext] structure RawTable where
  schemaName : RawString
  tableName : RawString
  columns : List RawColumn
  count_lt : columns.length < 2 ^ 32

def RawTable.bytes (raw : RawTable) : List UInt8 :=
  raw.schemaName.bytes ++ (raw.tableName.bytes
    ++ (leBytes 4 raw.columns.length ++ raw.columns.flatMap RawColumn.bytes))

/-- The table in memory. -/
def RawTable.info (uninit : Nat → Int16) (raw : RawTable) : CreateTableInfo where
  schemaName := raw.schemaName.text
  tableName := raw.tableName.text
  ifNotExists := true
  columns := rawColumns uninit 0 raw.columns

/-- No name has a zero byte. -/
structure RawTable.NulFree (raw : RawTable) : Prop where
  schemaName : 0 ∉ raw.schemaName.chars
  tableName : 0 ∉ raw.tableName.chars
  columns : ∀ column ∈ raw.columns, 0 ∉ column.name.chars

/-! ### Integers in the stream -/

/-- The byte of a type. -/
theorem leBytes_ofNat_leNat {bytes : List UInt8} (h : bytes.length = 1) :
    leBytes 1 (UInt8.ofNat (leNat bytes)).toNat = bytes := by
  have hlt : leNat bytes < 2 ^ 8 := leNat_lt_pow (k := 1) h.le
  rw [UInt8.toNat_ofNat', Nat.mod_eq_of_lt hlt, ← h, leBytes_leNat]

theorem ofNat_leNat_leBytes (type : UInt8) : UInt8.ofNat (leNat (leBytes 1 type.toNat)) = type := by
  have hlt : type.toNat < 256 ^ 1 := type.toNat_lt
  rw [leNat_leBytes, Nat.mod_eq_of_lt hlt, UInt8.ofNat_toNat]

/-- The two bytes of a dimension. -/
theorem leBytes_dim {bytes : List UInt8} (h : bytes.length = 2) :
    leBytes 2 (UInt16.ofNat (leNat bytes)).toInt16.toUInt16.toNat = bytes := by
  have hlt : leNat bytes < 2 ^ 16 := leNat_lt_pow (k := 2) h.le
  rw [UInt16.toUInt16_toInt16, UInt16.toNat_ofNat', Nat.mod_eq_of_lt hlt, ← h, leBytes_leNat]

theorem toUInt8_typeOfByte (type : UInt8) : (typeOfByte type).toUInt8 = type := by
  have hlt : type.toNat < 2 ^ 32 := Nat.lt_trans type.toNat_lt (by decide)
  apply UInt8.toNat_inj.mp
  rw [UInt32.toNat_toUInt8, typeOfByte, UInt32.toNat_ofNat', Nat.mod_eq_of_lt hlt]
  exact Nat.mod_eq_of_lt type.toNat_lt

/-! ### What the decoder reads -/

section Reads
variable {ρ : Type} {dr : Deserializer ρ} {Pending : ρ → List UInt8 → Prop}

/-- The characters of a string, whatever they are. -/
theorem reads_rawChars (h : dr.Yields Pending) (raw : RawString) :
    Reads (ClientPending Pending) (deserializerReadChars dr raw.chars.length) raw.chars
      raw.text := by
  rintro ⟨reader, outcomes⟩ rest ⟨hpending, hnil⟩
  have houtcomes : outcomes = [] := hnil
  subst houtcomes
  obtain ⟨c', hread, hc'⟩ :=
    Reads.map (reads_read h raw.chars) CString.ofBytes ⟨reader, []⟩ rest ⟨hpending, rfl⟩
  refine ⟨c', ?_, hc'⟩
  rw [deserializerReadChars, if_neg (Nat.not_le.mpr raw.inMemory)]
  exact hread

theorem reads_rawString (h : dr.Yields Pending) (raw : RawString) :
    Reads (ClientPending Pending) (deserializerReadString dr) raw.bytes raw.text :=
  Reads.append (reads_type h 8 (Nat.lt_of_succ_lt raw.inMemory)) (reads_rawChars h raw)

theorem reads_rawOptions (h : dr.Yields Pending) (uninit : Int16) (type : SQLType)
    {options : List UInt8} (hlength : options.length = optionSize type) :
    Reads (ClientPending Pending) (readOptions dr uninit type) options
      (dimOfOptions uninit type options) := by
  unfold optionSize at hlength
  unfold readOptions dimOfOptions
  split
  case isTrue hvector =>
      rw [if_pos hvector] at hlength
      have hvalue : leNat options < 256 ^ 2 := leNat_lt_pow hlength.le
      have hbytes : leBytes 2 (leNat options) = options := by rw [← hlength, leBytes_leNat]
      have hread := Reads.map (reads_type h 2 hvalue) fun n => (UInt16.ofNat n).toInt16
      rw [hbytes] at hread
      exact hread
  case isFalse hvector =>
      rw [if_neg hvector] at hlength
      rw [List.length_eq_zero_iff.mp hlength]
      exact Reads.nil uninit

theorem reads_rawColumn (h : dr.Yields Pending) (uninit : Int16) (i : Nat) (raw : RawColumn) :
    Reads (ClientPending Pending) (readColumn dr uninit i) raw.bytes (raw.column uninit i) := by
  unfold readColumn RawColumn.bytes
  refine Reads.append (reads_rawString h raw.name) ?_
  refine Reads.append (reads_u8 h raw.type) ?_
  exact Reads.map (reads_rawOptions h uninit (typeOfByte raw.type) raw.length_options) fun dim =>
    ({ name := raw.name.text, oid := UInt64.ofNat i, type := typeOfByte raw.type, dim } :
      ColumnDefinition)

theorem reads_rawColumns (h : dr.Yields Pending) (uninit : Nat → Int16) (raws : List RawColumn)
    (i : Nat) :
    Reads (ClientPending Pending) (readColumns dr uninit raws.length i)
      (raws.flatMap RawColumn.bytes) (rawColumns uninit i raws) := by
  induction raws generalizing i with
  | nil => exact Reads.nil _
  | cons raw raws ih =>
      rw [List.flatMap_cons, List.length_cons]
      refine Reads.append (reads_rawColumn h (uninit i) i raw) ?_
      exact Reads.map (ih (i + 1)) (raw.column (uninit i) i :: ·)

theorem reads_rawColumnArray (h : dr.Yields Pending) (uninit : Nat → Int16)
    {raws : List RawColumn} (hcount : raws.length < 2 ^ 32) :
    Reads (ClientPending Pending) (readColumnArray dr uninit (UInt32.ofNat raws.length))
      (raws.flatMap RawColumn.bytes) (rawColumns uninit 0 raws) := by
  rintro ⟨reader, outcomes⟩ rest ⟨hpending, hnil⟩
  have houtcomes : outcomes = [] := hnil
  subst houtcomes
  have hlen : (UInt32.ofNat raws.length).toNat = raws.length := by
    rw [UInt32.toNat_ofNat']
    exact Nat.mod_eq_of_lt hcount
  obtain ⟨c', hread, hc'⟩ :=
    reads_rawColumns h uninit raws 0 ⟨reader, []⟩ rest ⟨hpending, rfl⟩
  refine ⟨c', ?_, hc'⟩
  rw [← hlen] at hread
  exact hread

/-- The decoder reads every raw table, in front of any stream. -/
theorem reads_rawTable (h : dr.Yields Pending) (uninit : Nat → Int16) (raw : RawTable) :
    Reads (ClientPending Pending) (createTableInfoDeserialize dr uninit) raw.bytes
      (raw.info uninit) := by
  unfold createTableInfoDeserialize RawTable.bytes
  refine Reads.append (reads_rawString h raw.schemaName) ?_
  refine Reads.append (reads_rawString h raw.tableName) ?_
  refine Reads.append (reads_u32 h raw.count_lt) ?_
  exact Reads.map (reads_rawColumnArray h uninit raw.count_lt) fun columns =>
    ({ schemaName := raw.schemaName.text, tableName := raw.tableName.text, ifNotExists := true,
       columns } : CreateTableInfo)

end Reads

/-! ### What the decoder accepts -/

section Accepts
variable {ρ : Type} {dr : Deserializer ρ} {Pending : ρ → List UInt8 → Prop}

theorem accepts_read (h : dr.Exact Pending) (n : Nat) :
    Accepts (ClientPending Pending) (deserializerRead dr n) fun bytes data =>
      bytes = data ∧ data.length = n := by
  intro c c' bytes data hc hrun
  obtain ⟨⟨reader, data'⟩, hread, hrest⟩ := bind_eq_ok.mp hrun
  cases pure_eq_ok.mp hrest
  obtain ⟨hlength, rest, hbytes, hpending⟩ := h.read_eq hc.1 hread
  exact ⟨data, rest, hbytes, ⟨rfl, hlength⟩, hpending, hc.2⟩

/-- A function of some bytes. -/
theorem accepts_bytes {α : Type} (h : dr.Exact Pending) (n : Nat) (f : List UInt8 → α) :
    Accepts (ClientPending Pending)
      (fun c => deserializerRead dr n c >>= fun (c, data) => .ok (c, f data)) fun bytes a =>
      bytes.length = n ∧ a = f bytes := by
  apply ((accepts_read h n).map f).mono
  rintro bytes a ⟨data, ⟨rfl, hlength⟩, ha⟩
  exact ⟨hlength, ha⟩

theorem accepts_type (h : dr.Exact Pending) (size : Nat) :
    Accepts (ClientPending Pending) (deserializerReadType dr size) fun bytes value =>
      bytes.length = size ∧ value = leNat bytes :=
  accepts_bytes h size leNat

/-- An integer, from its bytes. -/
theorem accepts_integer {α : Type} (h : dr.Exact Pending) (size : Nat) (f : Nat → α) :
    Accepts (ClientPending Pending)
      (fun c => deserializerReadType dr size c >>= fun (c, value) => .ok (c, f value))
      fun bytes a => bytes.length = size ∧ a = f (leNat bytes) := by
  apply ((accepts_type h size).map f).mono
  rintro bytes a ⟨value, ⟨hlength, rfl⟩, ha⟩
  exact ⟨hlength, ha⟩

/-- The characters of a string. The length that has no memory is not accepted. -/
theorem accepts_chars (h : dr.Exact Pending) (len : Nat) :
    Accepts (ClientPending Pending) (deserializerReadChars dr len) fun bytes str =>
      len + 1 < 2 ^ 64 ∧ bytes.length = len ∧ str = CString.ofBytes bytes := by
  by_cases hlen : 2 ^ 64 ≤ len + 1
  · intro c c' bytes str _ hrun
    rw [deserializerReadChars, if_pos hlen] at hrun
    cases hrun
  · have hread : Accepts (ClientPending Pending) (deserializerReadChars dr len) fun bytes str =>
        bytes.length = len ∧ str = CString.ofBytes bytes := by
      apply (accepts_bytes h len CString.ofBytes).of_eq
      rintro ⟨reader, outcomes⟩ bytes ⟨-, houtcomes⟩
      have hnil : outcomes = [] := houtcomes
      subst hnil
      rw [deserializerReadChars, if_neg hlen]
      rfl
    exact hread.mono fun bytes str hstr => ⟨Nat.lt_of_not_le hlen, hstr⟩

theorem accepts_string (h : dr.Exact Pending) :
    Accepts (ClientPending Pending) (deserializerReadString dr)
      (Encodes RawString.bytes RawString.text) := by
  apply Accepts.mono (g := deserializerReadString dr)
    ((accepts_type h 8).bind fun len => accepts_chars h len)
  rintro bytes str ⟨len, front, chars, rfl, ⟨hfront, rfl⟩, hlen, hchars, hstr⟩
  have hlength : front = leBytes 8 chars.length := by
    rw [hchars, ← hfront, leBytes_leNat]
  exact ⟨⟨chars, by rwa [hchars]⟩, congrArg (· ++ chars) hlength, hstr⟩

theorem accepts_options (h : dr.Exact Pending) (uninit : Int16) (type : SQLType) :
    Accepts (ClientPending Pending) (readOptions dr uninit type) fun bytes dim =>
      bytes.length = optionSize type ∧ dim = dimOfOptions uninit type bytes := by
  unfold readOptions optionSize dimOfOptions
  split
  · exact accepts_integer h 2 fun value => (UInt16.ofNat value).toInt16
  · apply (Accepts.nil uninit).mono
    rintro bytes dim ⟨rfl, hdim⟩
    exact ⟨rfl, hdim⟩

theorem accepts_column (h : dr.Exact Pending) (uninit : Int16) (i : Nat) :
    Accepts (ClientPending Pending) (readColumn dr uninit i)
      (Encodes RawColumn.bytes (RawColumn.column uninit i)) := by
  have hbind := (accepts_string h).bind fun name =>
    (accepts_integer h 1 UInt8.ofNat).bind fun type =>
      (accepts_options h uninit (typeOfByte type)).map fun dim =>
        ({ name, oid := UInt64.ofNat i, type := typeOfByte type, dim } : ColumnDefinition)
  apply Accepts.mono (g := readColumn dr uninit i) hbind
  rintro bytes column ⟨_, _, _, rfl, ⟨name, rfl, rfl⟩, type, front, options, rfl, ⟨hfront, rfl⟩,
    _, ⟨hoptions, rfl⟩, rfl⟩
  refine ⟨⟨name, _, options, hoptions⟩, ?_, rfl⟩
  rw [RawColumn.bytes, leBytes_ofNat_leNat hfront]

/-- The loop takes as many columns as it was told. -/
theorem accepts_columns (h : dr.Exact Pending) (uninit : Nat → Int16) (count i : Nat) :
    Accepts (ClientPending Pending) (readColumns dr uninit count i) fun bytes columns =>
      ∃ raws : List RawColumn, raws.length = count ∧ bytes = raws.flatMap RawColumn.bytes ∧
        columns = rawColumns uninit i raws := by
  induction count generalizing i with
  | zero =>
      apply (Accepts.nil []).mono
      rintro bytes columns ⟨rfl, rfl⟩
      exact ⟨[], rfl, rfl, rfl⟩
  | succ count ih =>
      apply Accepts.mono (g := readColumns dr uninit (count + 1) i)
        ((accepts_column h (uninit i) i).bind fun column =>
          (ih (i + 1)).map fun columns => column :: columns)
      rintro bytes columns ⟨_, _, _, rfl, ⟨raw, rfl, rfl⟩, _, ⟨raws, hlength, rfl, rfl⟩, rfl⟩
      refine ⟨raw :: raws, ?_, List.flatMap_cons.symm, rfl⟩
      rw [List.length_cons, hlength]

theorem accepts_columnArray (h : dr.Exact Pending) (uninit : Nat → Int16) (colCount : UInt32) :
    Accepts (ClientPending Pending) (readColumnArray dr uninit colCount) fun bytes columns =>
      ∃ raws : List RawColumn, raws.length = colCount.toNat ∧
        bytes = raws.flatMap RawColumn.bytes ∧ columns = rawColumns uninit 0 raws := by
  apply (accepts_columns h uninit colCount.toNat 0).of_eq
  rintro ⟨reader, outcomes⟩ bytes ⟨-, houtcomes⟩
  have hnil : outcomes = [] := houtcomes
  subst hnil
  rfl

/-- The decoder takes a raw table, and nothing but a raw table. -/
theorem accepts_createTableInfo (h : dr.Exact Pending) (uninit : Nat → Int16) :
    Accepts (ClientPending Pending) (createTableInfoDeserialize dr uninit)
      (Encodes RawTable.bytes (RawTable.info uninit)) := by
  have hbind := (accepts_string h).bind fun schemaName =>
    (accepts_string h).bind fun tableName =>
      (accepts_integer h 4 UInt32.ofNat).bind fun colCount =>
        (accepts_columnArray h uninit colCount).map fun columns =>
          ({ schemaName, tableName, ifNotExists := true, columns } : CreateTableInfo)
  apply Accepts.mono (g := createTableInfoDeserialize dr uninit) hbind
  rintro bytes info ⟨_, _, _, rfl, ⟨schemaName, rfl, rfl⟩, _, _, _, rfl, ⟨tableName, rfl, rfl⟩,
    colCount, front, _, rfl, ⟨hfront, rfl⟩, _, ⟨columns, hcount, rfl, rfl⟩, rfl⟩
  have hlt : leNat front < 2 ^ 32 := leNat_lt_pow (k := 4) hfront.le
  rw [UInt32.toNat_ofNat', Nat.mod_eq_of_lt hlt] at hcount
  have hfits : columns.length < 2 ^ 32 := by rwa [hcount]
  have hbytes : leBytes 4 columns.length = front := by rw [hcount, ← hfront, leBytes_leNat]
  refine ⟨⟨schemaName, tableName, columns, hfits⟩, ?_, rfl⟩
  rw [RawTable.bytes, hbytes]

end Accepts

/-! ### One reading -/

theorem prefixFree_string : PrefixFree RawString.bytes := by
  intro a b s t h
  rw [RawString.bytes, RawString.bytes, List.append_assoc, List.append_assoc] at h
  obtain ⟨hlength, hrest⟩ := List.append_inj h (by rw [length_leBytes, length_leBytes])
  -- the two lengths are below 256 ^ 8, so their bytes tell them apart
  have hle := congrArg leNat hlength
  have ha : a.chars.length < 256 ^ 8 := Nat.lt_of_succ_lt a.inMemory
  have hb : b.chars.length < 256 ^ 8 := Nat.lt_of_succ_lt b.inMemory
  rw [leNat_leBytes, leNat_leBytes, Nat.mod_eq_of_lt ha, Nat.mod_eq_of_lt hb] at hle
  obtain ⟨hchars, hst⟩ := List.append_inj hrest hle
  exact ⟨RawString.ext hchars, hst⟩

theorem prefixFree_column : PrefixFree RawColumn.bytes := by
  intro a b s t h
  simp only [RawColumn.bytes, List.append_assoc] at h
  obtain ⟨hname, h⟩ := prefixFree_string h
  obtain ⟨htypes, h⟩ := List.append_inj h (by rw [length_leBytes, length_leBytes])
  have htype : a.type = b.type := by
    rw [← ofNat_leNat_leBytes a.type, htypes, ofNat_leNat_leBytes]
  -- the type says how long the options are
  have hlength : a.options.length = b.options.length := by
    rw [a.length_options, b.length_options, htype]
  obtain ⟨hoptions, hst⟩ := List.append_inj h hlength
  exact ⟨RawColumn.ext hname htype hoptions, hst⟩

theorem prefixFree_table : PrefixFree RawTable.bytes := by
  intro a b s t h
  simp only [RawTable.bytes, List.append_assoc] at h
  obtain ⟨hschema, h⟩ := prefixFree_string h
  obtain ⟨htable, h⟩ := prefixFree_string h
  obtain ⟨hcounts, h⟩ := List.append_inj h (by rw [length_leBytes, length_leBytes])
  have ha : a.columns.length < 256 ^ 4 := a.count_lt
  have hb : b.columns.length < 256 ^ 4 := b.count_lt
  have hcount := congrArg leNat hcounts
  rw [leNat_leBytes, leNat_leBytes, Nat.mod_eq_of_lt ha, Nat.mod_eq_of_lt hb] at hcount
  obtain ⟨hcolumns, hst⟩ := prefixFree_column.flatMap hcount h
  exact ⟨RawTable.ext hschema htable hcolumns, hst⟩

/-! ### Writing the table again -/

/-- What the decoder keeps of a string. -/
def RawString.cut (raw : RawString) : RawString where
  chars := raw.text.bytes
  inMemory :=
    Nat.lt_of_le_of_lt (Nat.succ_le_succ (List.takeWhile_sublist _).length_le) raw.inMemory

def RawColumn.cut (raw : RawColumn) : RawColumn := { raw with name := raw.name.cut }

def RawTable.cut (raw : RawTable) : RawTable where
  schemaName := raw.schemaName.cut
  tableName := raw.tableName.cut
  columns := raw.columns.map RawColumn.cut
  count_lt := by
    rw [List.length_map]
    exact raw.count_lt

theorem RawString.cut_eq_iff (raw : RawString) : raw.cut = raw ↔ 0 ∉ raw.chars := by
  rw [RawString.ext_iff]
  show raw.chars.takeWhile (· ≠ 0) = raw.chars ↔ _
  rw [List.takeWhile_eq_self_iff]
  constructor
  · intro h hzero
    simpa using h 0 hzero
  · intro h b hb
    have hne : b ≠ 0 := fun hz => h (hz ▸ hb)
    simpa using hne

theorem RawColumn.cut_eq_iff (raw : RawColumn) : raw.cut = raw ↔ 0 ∉ raw.name.chars := by
  rw [← RawString.cut_eq_iff, RawColumn.ext_iff]
  exact ⟨fun h => h.1, fun h => ⟨h, rfl, rfl⟩⟩

/-- The decoder keeps all of a table exactly when no name has a zero byte. -/
theorem RawTable.cut_eq_iff (raw : RawTable) : raw.cut = raw ↔ raw.NulFree := by
  have hcolumns : raw.columns.map RawColumn.cut = raw.columns ↔
      ∀ column ∈ raw.columns, column.cut = column := by
    conv_lhs => rhs; rw [← List.map_id raw.columns]
    exact List.map_inj_left
  rw [RawTable.ext_iff]
  show raw.schemaName.cut = _ ∧ raw.tableName.cut = _ ∧ raw.columns.map RawColumn.cut = _ ↔ _
  rw [RawString.cut_eq_iff, RawString.cut_eq_iff, hcolumns]
  simp only [RawColumn.cut_eq_iff]
  exact ⟨fun h => ⟨h.1, h.2.1, h.2.2⟩, fun h => ⟨h.schemaName, h.tableName, h.columns⟩⟩

/-- The encoder writes the options of a column as they were read. -/
theorem optionBytes_column (uninit : Int16) (i : Nat) (raw : RawColumn) :
    optionBytes (raw.column uninit i) = raw.options := by
  have hlength := raw.length_options
  unfold optionBytes RawColumn.column dimOfOptions
  unfold optionSize at hlength
  split
  case isTrue h =>
      rw [if_pos h] at hlength
      exact leBytes_dim hlength
  case isFalse h =>
      rw [if_neg h] at hlength
      exact (List.length_eq_zero_iff.mp hlength).symm

theorem columnBytes_column (uninit : Int16) (i : Nat) (raw : RawColumn) :
    columnBytes (raw.column uninit i) = raw.cut.bytes := by
  rw [columnBytes, optionBytes_column]
  show stringBytes raw.name.text ++ (leBytes 1 (typeOfByte raw.type).toUInt8.toNat ++ _) = _
  rw [toUInt8_typeOfByte]
  rfl

theorem flatMap_rawColumns (uninit : Nat → Int16) (i : Nat) (raws : List RawColumn) :
    (rawColumns uninit i raws).flatMap columnBytes
      = (raws.map RawColumn.cut).flatMap RawColumn.bytes := by
  induction raws generalizing i with
  | nil => rfl
  | cons raw raws ih =>
      rw [rawColumns, List.flatMap_cons, columnBytes_column, ih, List.map_cons, List.flatMap_cons]

theorem length_rawColumns (uninit : Nat → Int16) (i : Nat) (raws : List RawColumn) :
    (rawColumns uninit i raws).length = raws.length := by
  induction raws generalizing i with
  | nil => rfl
  | cons raw raws ih => rw [rawColumns, List.length_cons, List.length_cons, ih]

/-- The encoder writes what the decoder kept. -/
theorem tableBytes_info (uninit : Nat → Int16) (raw : RawTable) :
    tableBytes (raw.info uninit).schemaName (raw.info uninit).tableName (raw.info uninit).columns
      = raw.cut.bytes := by
  show stringBytes _ ++ (stringBytes _ ++ (leBytes 4 (rawColumns uninit 0 raw.columns).length
    ++ (rawColumns uninit 0 raw.columns).flatMap columnBytes)) = _
  rw [length_rawColumns, flatMap_rawColumns, RawTable.bytes]
  show _ = _ ++ (_ ++ (leBytes 4 (raw.columns.map RawColumn.cut).length ++ _))
  rw [List.length_map]
  rfl

/-- A table that was read and is written again has the bytes that were read exactly when no name
has a zero byte. -/
theorem rewritten_iff {δ : Type} (uninit : Nat → Int16) (raw : RawTable)
    (hcount : raw.columns.length < 2 ^ 31) {heap : CatalogHeap δ} {entry : Addr}
    (htable : TableAt heap entry (raw.info uninit).schemaName (raw.info uninit).tableName
      (raw.info uninit).columns) :
    checkpointManagerWriteTableCatalog Sink.list heap entry [] = .ok raw.bytes ↔ raw.NulFree := by
  have hlength : (raw.info uninit).columns.length < 2 ^ 31 := by
    show (rawColumns uninit 0 raw.columns).length < _
    rwa [length_rawColumns]
  obtain ⟨bytes, hrun, hbytes⟩ :=
    writes_tableCatalog Sink.list_collects htable hlength [] [] rfl trivial
  have hcut : bytes = raw.cut.bytes := by
    rw [hbytes, List.nil_append, tableBytes_info]
  rw [hrun, hcut, ← RawTable.cut_eq_iff]
  constructor
  · intro h
    exact prefixFree_table.injective (Except.ok.inj h)
  · intro h
    rw [h]

/-- The decoder reads every raw table from every stream, and from the bytes of a list nothing else.
No raw table is the beginning of another, and writing the table again gives the bytes that were
read exactly when no name has a zero byte. -/
theorem table_format_exact {ρ δ : Type} {dr : Deserializer ρ} {Pending : ρ → List UInt8 → Prop}
    (hdr : dr.Yields Pending) (uninit : Nat → Int16) :
    (∀ raw : RawTable, Reads (ClientPending Pending) (createTableInfoDeserialize dr uninit)
        raw.bytes (raw.info uninit)) ∧
      (∀ bytes c info, createTableInfoDeserialize (Source.list .outOfBounds) uninit
          { reader := bytes, outcomes := [] } = .ok (c, info) →
        ∃ raw : RawTable, bytes = raw.bytes ++ c.reader ∧ info = raw.info uninit) ∧
      PrefixFree RawTable.bytes ∧
      ∀ (raw : RawTable) (heap : CatalogHeap δ) (entry : Addr), raw.columns.length < 2 ^ 31 →
        TableAt heap entry (raw.info uninit).schemaName (raw.info uninit).tableName
          (raw.info uninit).columns →
        (checkpointManagerWriteTableCatalog Sink.list heap entry [] = .ok raw.bytes ↔
          raw.NulFree) := by
  refine ⟨reads_rawTable hdr uninit, ?_, prefixFree_table,
    fun raw heap entry hcount htable => rewritten_iff uninit raw hcount htable⟩
  intro bytes c info hrun
  obtain ⟨front, rest, hbytes, ⟨raw, hraw, hinfo⟩, hrest, -⟩ :=
    accepts_createTableInfo (Source.list_exact .outOfBounds) uninit _ c bytes info ⟨rfl, rfl⟩ hrun
  exact ⟨raw, by rw [hbytes, hraw, hrest], hinfo⟩

/-- A table `main.t` whose name has a zero byte and a second `t` behind it in the stream. -/
def rawTwoNames : RawTable where
  schemaName := { chars := DEFAULT_SCHEMA.bytes, inMemory := by decide }
  tableName := { chars := [116, 0, 116], inMemory := by decide }
  columns := []
  count_lt := by decide

/-- The heap with the schema `main` and, at address 1, its table `t` without columns. -/
def emptyTableHeap : CatalogHeap Unit where
  cells :=
    [some (catalogEntryInit .schema (some DEFAULT_SCHEMA) .base),
      some (catalogEntryInit .table (some nameT)
        (.table { schema := 0, datatable := (), columns := [], columnCount := 0 }))]
  outcomes := []

/-- The table is read in front of one more byte, and it is not what is written again. -/
theorem table_format_exact_zero_byte :
    (∃ info c, createTableInfoDeserialize (Source.list .outOfBounds) (fun _ => 0)
        { reader := rawTwoNames.bytes ++ [9], outcomes := [] } = .ok (c, info) ∧
      info.tableName = nameT ∧ c.reader = [9]) ∧
      checkpointManagerWriteTableCatalog Sink.list emptyTableHeap 1 [] ≠ .ok rawTwoNames.bytes := by
  obtain ⟨hreads, -, -, hrewritten⟩ :=
    table_format_exact (δ := Unit) (Source.list_yields Fault.outOfBounds) fun _ => 0
  constructor
  · obtain ⟨c, hrun, hrest, -⟩ := hreads rawTwoNames
      { reader := rawTwoNames.bytes ++ [9], outcomes := [] } [9] ⟨rfl, rfl⟩
    exact ⟨_, c, hrun, rfl, hrest⟩
  · intro hwritten
    have hfree := (hrewritten rawTwoNames emptyTableHeap 1 (by decide)
      ⟨_, _, _, rfl, rfl, rfl, rfl, rfl, rfl, rfl⟩).mp hwritten
    exact hfree.tableName (by decide)

end MustDb.Proofs.Storage
