import MustDb.Storage.CheckpointManager

/-!
# `MustDb.Proofs.Storage.TableCodec`: a table definition survives its way through a stream

`checkpointManager_write_table_catalog` and `createTableInfo_deserialize` share a format and no
code. `tableBytes` is that format: the two names, the number of columns, and the columns one by
one. The encoder writes exactly these bytes (`writes_tableCatalog`), and the decoder takes exactly
these bytes and gets the table back (`reads_createTableInfo`). Neither looks at the bytes that come
after. The two halves meet in `table_codec_round_trip`, for every pair of streams that delivers
bytes unchanged.

The proof follows the two functions: each macro and each helper has one lemma with the bytes that it
writes or takes. The loops go by induction on the columns that are left.
-/

set_option autoImplicit false

namespace MustDb.Proofs.Storage

open MustDb.Lib
open MustDb.Storage
open MustDb.Catalog
open MustDb.Parse

/-! ### The format -/

/-- A string: its length, then its characters. -/
def stringBytes (str : CString) : List UInt8 := leBytes 8 str.bytes.length ++ str.bytes

/-- The options of a column: the dimension of a vector. -/
def optionBytes (column : ColumnDefinition) : List UInt8 :=
  if column.type = SQLT_VECTOR then leBytes 2 column.dim.toUInt16.toNat else []

/-- A column. -/
def columnBytes (column : ColumnDefinition) : List UInt8 :=
  stringBytes column.name ++ (leBytes 1 column.type.toUInt8.toNat ++ optionBytes column)

/-- A table definition. -/
def tableBytes (schemaName tableName : CString) (columns : List ColumnDefinition) : List UInt8 :=
  stringBytes schemaName ++ (stringBytes tableName
    ++ (leBytes 4 columns.length ++ columns.flatMap columnBytes))

/-! ### The encoder -/

section Encoder
variable {σ δ : Type} {sw : Serializer σ} {fits : List UInt8 → Prop}
  {Written : σ → List UInt8 → Prop}

theorem writes_type (h : sw.Collects fits Written) (size value : Nat) :
    Writes fits Written (serializerWriteType sw size value) (leBytes size value) :=
  h.writes _

theorem writes_string (h : sw.Collects fits Written) (str : CString) :
    Writes fits Written (serializerWriteString sw str) (stringBytes str) :=
  Writes.append h.fits_left (writes_type h 8 _) (h.writes _)

theorem writes_name (h : sw.Collects fits Written) (str : CString) :
    Writes fits Written (writeName sw (some str)) (stringBytes str) :=
  writes_string h str

theorem writes_options (h : sw.Collects fits Written) (column : ColumnDefinition) :
    Writes fits Written (writeOptions sw column) (optionBytes column) := by
  unfold writeOptions optionBytes
  split
  · exact writes_type h 2 _
  · exact Writes.nil

theorem writes_column (h : sw.Collects fits Written) (column : ColumnDefinition) :
    Writes fits Written (writeColumn sw column) (columnBytes column) :=
  Writes.append h.fits_left (writes_string h _)
    (Writes.append h.fits_left (writes_type h 1 _) (writes_options h column))

/-- The loop writes the columns behind its position. -/
theorem writes_columns (h : sw.Collects fits Written) {columns : List ColumnDefinition}
    (hcount : columns.length ≤ 2 ^ 31) (rest done : List ColumnDefinition)
    (hcolumns : columns = done ++ rest) :
    Writes fits Written (writeColumns sw columns rest.length done.length)
      (rest.flatMap columnBytes) := by
  induction rest generalizing done with
  | nil => exact Writes.nil
  | cons column rest ih =>
      have hlen : columns.length = done.length + (rest.length + 1) := by
        rw [hcolumns, List.length_append, List.length_cons]
      have hget : columns[done.length]? = some column := by
        rw [hcolumns, List.getElem?_append_right (Nat.le_refl _), Nat.sub_self]
        rfl
      have hnext : Writes fits Written (writeColumns sw columns rest.length (done.length + 1))
          (rest.flatMap columnBytes) := by
        have hrest := ih (done ++ [column]) (by simp [hcolumns])
        rwa [List.length_append] at hrest
      -- the counter of the loop is an `int`, and there are few enough columns for it
      have hint : ¬ 2 ^ 31 ≤ done.length := by omega
      rw [List.flatMap_cons, List.length_cons]
      intro s pre hs hfits
      obtain ⟨s', hrun, hs'⟩ :=
        Writes.append h.fits_left (writes_column h column) hnext s pre hs hfits
      refine ⟨s', ?_, hs'⟩
      rw [writeColumns, if_neg hint, hget]
      exact hrun

end Encoder

/-! ### The decoder -/

/-- What a client still has to read, with memory for every allocation. -/
def ClientPending {ρ : Type} (Pending : ρ → List UInt8 → Prop) (c : Client ρ)
    (bytes : List UInt8) : Prop :=
  Pending c.reader bytes ∧ c.outcomes = []

section Decoder
variable {ρ : Type} {dr : Deserializer ρ} {Pending : ρ → List UInt8 → Prop}

theorem reads_read (h : dr.Yields Pending) (data : List UInt8) :
    Reads (ClientPending Pending) (deserializerRead dr data.length) data data := by
  rintro c rest ⟨hpending, hmem⟩
  obtain ⟨reader, hread, hrest⟩ := h.read_ok hpending
  refine ⟨{ c with reader }, ?_, hrest, hmem⟩
  rw [deserializerRead, hread]
  rfl

theorem reads_type (h : dr.Yields Pending) (size : Nat) {value : Nat}
    (hvalue : value < 256 ^ size) :
    Reads (ClientPending Pending) (deserializerReadType dr size) (leBytes size value) value := by
  have hread := Reads.map (reads_read h (leBytes size value)) leNat
  rw [leNat_leBytes, Nat.mod_eq_of_lt hvalue, length_leBytes] at hread
  exact hread

theorem reads_u32 (h : dr.Yields Pending) {value : Nat} (hvalue : value < 2 ^ 32) :
    Reads (ClientPending Pending) (deserializerReadU32 dr) (leBytes 4 value)
      (UInt32.ofNat value) :=
  Reads.map (reads_type h 4 hvalue) UInt32.ofNat

theorem reads_u8 (h : dr.Yields Pending) (value : UInt8) :
    Reads (ClientPending Pending) (deserializerReadU8 dr) (leBytes 1 value.toNat) value := by
  have hread := Reads.map (reads_type h 1 value.toNat_lt) UInt8.ofNat
  rw [UInt8.ofNat_toNat] at hread
  exact hread

theorem reads_i16 (h : dr.Yields Pending) (value : Int16) :
    Reads (ClientPending Pending) (deserializerReadI16 dr) (leBytes 2 value.toUInt16.toNat)
      value := by
  have hread := Reads.map (reads_type h 2 value.toUInt16.toNat_lt)
    (fun n => (UInt16.ofNat n).toInt16)
  rw [UInt16.ofNat_toNat] at hread
  exact hread

theorem reads_chars (h : dr.Yields Pending) {str : CString} (hmem : str.InMemory) :
    Reads (ClientPending Pending) (deserializerReadChars dr str.bytes.length) str.bytes str := by
  rintro ⟨reader, outcomes⟩ rest ⟨hpending, hnil⟩
  have houtcomes : outcomes = [] := hnil
  subst houtcomes
  have hlen : ¬ 2 ^ 64 ≤ str.bytes.length + 1 := Nat.not_le.mpr hmem
  obtain ⟨c', hread, hc'⟩ :=
    Reads.map (reads_read h str.bytes) CString.ofBytes ⟨reader, []⟩ rest ⟨hpending, rfl⟩
  rw [CString.ofBytes_bytes] at hread
  refine ⟨c', ?_, hc'⟩
  rw [deserializerReadChars, if_neg hlen]
  exact hread

theorem reads_string (h : dr.Yields Pending) {str : CString} (hmem : str.InMemory) :
    Reads (ClientPending Pending) (deserializerReadString dr) (stringBytes str) str :=
  Reads.append (reads_type h 8 (Nat.lt_of_succ_lt hmem)) (reads_chars h hmem)

/-- The dimension of a column after the decoder: that of the encoder for a vector, and the old
content of the memory for every other type. -/
def decodedDim (uninit : Int16) (column : ColumnDefinition) : Int16 :=
  if column.type = SQLT_VECTOR then column.dim else uninit

/-- The column that the decoder puts at position `i`. -/
def decodedColumn (uninit : Int16) (i : Nat) (column : ColumnDefinition) : ColumnDefinition :=
  { column with oid := UInt64.ofNat i, dim := decodedDim uninit column }

/-- The columns that the decoder puts from position `i` on. -/
def decodedColumns (uninit : Nat → Int16) : Nat → List ColumnDefinition → List ColumnDefinition
  | _, [] => []
  | i, column :: rest => decodedColumn (uninit i) i column :: decodedColumns uninit (i + 1) rest

theorem reads_options (h : dr.Yields Pending) (uninit : Int16) (column : ColumnDefinition) :
    Reads (ClientPending Pending) (readOptions dr uninit column.type) (optionBytes column)
      (decodedDim uninit column) := by
  unfold readOptions optionBytes decodedDim
  split
  · exact reads_i16 h _
  · exact Reads.nil _

/-- A type below 256 is its own low byte. -/
theorem ofNat_toUInt8 {type : SQLType} (h : type.toNat < 256) :
    UInt32.ofNat type.toUInt8.toNat = type := by
  rw [UInt32.toNat_toUInt8, Nat.mod_eq_of_lt h, UInt32.ofNat_toNat]

theorem reads_column (h : dr.Yields Pending) (uninit : Int16) (i : Nat) {column : ColumnDefinition}
    (hname : column.name.InMemory) (htype : column.type.toNat < 256) :
    Reads (ClientPending Pending) (readColumn dr uninit i) (columnBytes column)
      (decodedColumn uninit i column) := by
  have hoptions (type : SQLType) (heq : type = column.type) :
      Reads (ClientPending Pending)
        (fun c => readOptions dr uninit type c >>= fun result =>
          .ok (result.1, ({ name := column.name, oid := UInt64.ofNat i, type, dim := result.2 } :
            ColumnDefinition)))
        (optionBytes column) (decodedColumn uninit i column) := by
    subst heq
    exact Reads.map (reads_options h uninit column) _
  unfold readColumn columnBytes
  refine Reads.append (reads_string h hname) ?_
  refine Reads.append (reads_u8 h column.type.toUInt8) ?_
  exact hoptions _ (ofNat_toUInt8 htype)

theorem reads_columns (h : dr.Yields Pending) (uninit : Nat → Int16)
    (columns : List ColumnDefinition) (i : Nat)
    (hcolumns : ∀ column ∈ columns, column.name.InMemory ∧ column.type.toNat < 256) :
    Reads (ClientPending Pending) (readColumns dr uninit columns.length i)
      (columns.flatMap columnBytes) (decodedColumns uninit i columns) := by
  induction columns generalizing i with
  | nil => exact Reads.nil _
  | cons column rest ih =>
      obtain ⟨hname, htype⟩ := hcolumns column (List.mem_cons_self ..)
      have hrest := ih (i + 1) fun c hc => hcolumns c (List.mem_cons_of_mem _ hc)
      rw [List.flatMap_cons, List.length_cons]
      refine Reads.append (reads_column h (uninit i) i hname htype) ?_
      exact Reads.map hrest (decodedColumn (uninit i) i column :: ·)

theorem reads_columnArray (h : dr.Yields Pending) (uninit : Nat → Int16)
    {columns : List ColumnDefinition} (hcount : columns.length < 2 ^ 32)
    (hcolumns : ∀ column ∈ columns, column.name.InMemory ∧ column.type.toNat < 256) :
    Reads (ClientPending Pending) (readColumnArray dr uninit (UInt32.ofNat columns.length))
      (columns.flatMap columnBytes) (decodedColumns uninit 0 columns) := by
  rintro ⟨reader, outcomes⟩ rest ⟨hpending, hnil⟩
  have houtcomes : outcomes = [] := hnil
  subst houtcomes
  have hlen : (UInt32.ofNat columns.length).toNat = columns.length := by
    rw [UInt32.toNat_ofNat']
    exact Nat.mod_eq_of_lt hcount
  obtain ⟨c', hread, hc'⟩ :=
    reads_columns h uninit columns 0 hcolumns ⟨reader, []⟩ rest ⟨hpending, rfl⟩
  refine ⟨c', ?_, hc'⟩
  rw [← hlen] at hread
  exact hread

end Decoder

/-! ### The table -/

/-- The entry at `entry` is a table with these names and columns. -/
structure TableAt {δ : Type} (heap : CatalogHeap δ) (entry : Addr) (schemaName tableName : CString)
    (columns : List ColumnDefinition) : Prop where
  stored : ∃ e table schema, heap.get? entry = some e ∧ e.name = some tableName ∧
    e.body = .table table ∧ table.columns = columns ∧ table.columnCount = columns.length ∧
    heap.get? table.schema = some schema ∧ schema.name = some schemaName

/-- The encoder writes the table, and nothing else. -/
theorem writes_tableCatalog {σ δ : Type} {sw : Serializer σ} {fits : List UInt8 → Prop}
    {Written : σ → List UInt8 → Prop} (h : sw.Collects fits Written) {heap : CatalogHeap δ}
    {entry : Addr} {schemaName tableName : CString} {columns : List ColumnDefinition}
    (htable : TableAt heap entry schemaName tableName columns) (hcount : columns.length < 2 ^ 31) :
    Writes fits Written (checkpointManagerWriteTableCatalog sw heap entry)
      (tableBytes schemaName tableName columns) := by
  obtain ⟨e, table, schema, hentry, htableName, hbody, hcolumns, hlen, hschema, hschemaName⟩ :=
    htable.stored
  -- the count is cut to 32 bits, and fits
  have hu32 : leBytes 4 (UInt32.ofNat columns.length).toNat = leBytes 4 columns.length := by
    rw [UInt32.toNat_ofNat', Nat.mod_eq_of_lt (by omega)]
  have hloop := writes_columns h hcount.le columns [] rfl
  have hall := Writes.append h.fits_left (writes_name h schemaName)
    (Writes.append h.fits_left (writes_name h tableName)
      (Writes.append h.fits_left (writes_type h 4 (UInt32.ofNat columns.length).toNat) hloop))
  rw [hu32] at hall
  intro s pre hs hfits
  obtain ⟨s', hrun, hs'⟩ := hall s pre hs hfits
  refine ⟨s', ?_, hs'⟩
  rw [checkpointManagerWriteTableCatalog, readEntry, hentry, ok_bind, tableFields, hbody, ok_bind,
    readEntry, hschema, ok_bind, htableName, hschemaName, hcolumns, hlen]
  exact hrun

/-- The decoder takes the table, and nothing else. -/
theorem reads_createTableInfo {ρ : Type} {dr : Deserializer ρ} {Pending : ρ → List UInt8 → Prop}
    (h : dr.Yields Pending) (uninit : Nat → Int16) {schemaName tableName : CString}
    {columns : List ColumnDefinition} (hschema : schemaName.InMemory) (htable : tableName.InMemory)
    (hcount : columns.length < 2 ^ 31)
    (hcolumns : ∀ column ∈ columns, column.name.InMemory ∧ column.type.toNat < 256) :
    Reads (ClientPending Pending) (createTableInfoDeserialize dr uninit)
      (tableBytes schemaName tableName columns)
      { schemaName, tableName, ifNotExists := true,
        columns := decodedColumns uninit 0 columns } := by
  have hcount' : columns.length < 2 ^ 32 := by omega
  unfold createTableInfoDeserialize tableBytes
  -- the fields come in the order in which the encoder writes them
  refine Reads.append (reads_string h hschema) ?_
  refine Reads.append (reads_string h htable) ?_
  refine Reads.append (reads_u32 h hcount') ?_
  exact Reads.map (reads_columnArray h uninit hcount' hcolumns)
    fun columns => ({ schemaName, tableName, ifNotExists := true, columns } : CreateTableInfo)

/-! ### The round trip -/

/-- The column `read` has what the column `column` has, at position `i`. -/
structure SameColumn (i : Nat) (column read : ColumnDefinition) : Prop where
  name_eq : read.name = column.name
  type_eq : read.type = column.type
  oid_eq : read.oid.toNat = i
  dim_eq : column.type = SQLT_VECTOR → read.dim = column.dim

/-- The table that was read has these names and columns. -/
structure SameTable (schemaName tableName : CString) (columns : List ColumnDefinition)
    (info : CreateTableInfo) : Prop where
  schemaName_eq : info.schemaName = schemaName
  tableName_eq : info.tableName = tableName
  count_eq : info.columns.length = columns.length
  column : ∀ i column, columns[i]? = some column →
    ∃ read, info.columns[i]? = some read ∧ SameColumn i column read

theorem length_decodedColumns (uninit : Nat → Int16) (i : Nat) (columns : List ColumnDefinition) :
    (decodedColumns uninit i columns).length = columns.length := by
  induction columns generalizing i with
  | nil => rfl
  | cons column rest ih => rw [decodedColumns, List.length_cons, List.length_cons, ih]

/-- The decoder keeps the order of the columns. -/
theorem getElem?_decodedColumns (uninit : Nat → Int16) (i j : Nat)
    (columns : List ColumnDefinition) :
    (decodedColumns uninit i columns)[j]?
      = columns[j]?.map (decodedColumn (uninit (i + j)) (i + j)) := by
  induction columns generalizing i j with
  | nil => rfl
  | cons column rest ih =>
      cases j with
      | zero => rfl
      | succ j =>
          rw [decodedColumns, List.getElem?_cons_succ, List.getElem?_cons_succ, ih,
            Nat.add_right_comm, Nat.add_assoc]

/-- Positions below `2 ^ 64` fit in an oid. -/
theorem sameColumn_decodedColumn (uninit : Int16) {i : Nat} (hi : i < 2 ^ 64)
    (column : ColumnDefinition) : SameColumn i column (decodedColumn uninit i column) where
  name_eq := rfl
  type_eq := rfl
  oid_eq := by
    show (UInt64.ofNat i).toNat = i
    rw [UInt64.toNat_ofNat']
    exact Nat.mod_eq_of_lt hi
  dim_eq hvector := if_pos hvector

theorem sameTable_decoded (uninit : Nat → Int16) (schemaName tableName : CString)
    {columns : List ColumnDefinition} (hcount : columns.length < 2 ^ 31) :
    SameTable schemaName tableName columns
      { schemaName, tableName, ifNotExists := true,
        columns := decodedColumns uninit 0 columns } where
  schemaName_eq := rfl
  tableName_eq := rfl
  count_eq := length_decodedColumns uninit 0 columns
  column i column hcolumn := by
    have hi := (List.getElem?_eq_some_iff.mp hcolumn).1
    refine ⟨decodedColumn (uninit (0 + i)) (0 + i) column, ?_, ?_⟩
    · rw [getElem?_decodedColumns, hcolumn]
      rfl
    · rw [Nat.zero_add]
      exact sameColumn_decodedColumn (uninit i) (by omega) column

/-- A table definition comes back from its bytes, and the decoder stops where the encoder did. -/
theorem table_codec_round_trip {σ ρ δ : Type} {sw : Serializer σ} {fits : List UInt8 → Prop}
    {Written : σ → List UInt8 → Prop} (hsw : sw.Collects fits Written) {dr : Deserializer ρ}
    {Pending : ρ → List UInt8 → Prop} (hdr : dr.Yields Pending) {heap : CatalogHeap δ}
    {entry : Addr} {schemaName tableName : CString} {columns : List ColumnDefinition}
    (htable : TableAt heap entry schemaName tableName columns) (hcount : columns.length < 2 ^ 31)
    (hschemaName : schemaName.InMemory) (htableName : tableName.InMemory)
    (hcolumns : ∀ column ∈ columns, column.name.InMemory ∧ column.type.toNat < 256) :
    Writes fits Written (checkpointManagerWriteTableCatalog sw heap entry)
        (tableBytes schemaName tableName columns) ∧
      ∀ uninit, ∃ info, SameTable schemaName tableName columns info ∧
        Reads (ClientPending Pending) (createTableInfoDeserialize dr uninit)
          (tableBytes schemaName tableName columns) info :=
  ⟨writes_tableCatalog hsw htable hcount,
    fun uninit => ⟨_, sameTable_decoded uninit schemaName tableName hcount,
      reads_createTableInfo hdr uninit hschemaName htableName hcount hcolumns⟩⟩

/-- `"t"` -/
def nameT : CString := { bytes := [116] }

/-- An integer and a vector of dimension -3. -/
def twoColumns : List ColumnDefinition :=
  [{ name := nameT, oid := 5, type := SQLT_INTEGER, dim := 7 },
    { name := DEFAULT_SCHEMA, oid := 5, type := SQLT_VECTOR, dim := -3 }]

/-- The heap with the schema `main` and, at address 1, its table `t`. -/
def tableHeap : CatalogHeap Unit where
  cells :=
    [some (catalogEntryInit .schema (some DEFAULT_SCHEMA) .base),
      some (catalogEntryInit .table (some nameT)
        (.table { schema := 0, datatable := (), columns := twoColumns, columnCount := 2 }))]
  outcomes := []

theorem tableAt_tableHeap : TableAt tableHeap 1 DEFAULT_SCHEMA nameT twoColumns where
  stored := ⟨_, _, _, rfl, rfl, rfl, rfl, rfl, rfl, rfl⟩

/-- Through memory, in front of one more byte. -/
theorem table_codec_round_trip_two_columns :
    ∃ bytes, checkpointManagerWriteTableCatalog Sink.list tableHeap 1 [] = .ok bytes ∧
      ∃ info c, createTableInfoDeserialize (Source.list .outOfBounds) (fun _ => 0)
          { reader := bytes ++ [9], outcomes := [] } = .ok (c, info) ∧
        SameTable DEFAULT_SCHEMA nameT twoColumns info ∧ c.reader = [9] := by
  obtain ⟨hwrites, hreads⟩ :=
    table_codec_round_trip Sink.list_collects (Source.list_yields Fault.outOfBounds)
      tableAt_tableHeap (by decide) (by decide) (by decide) (by decide)
  obtain ⟨bytes, hrun, hbytes⟩ := hwrites [] [] rfl trivial
  obtain ⟨info, hsame, hread⟩ := hreads fun _ => 0
  obtain ⟨c, hc, hrest, -⟩ := hread { reader := bytes ++ [9], outcomes := [] } [9]
    ⟨congrArg (· ++ [9]) hbytes, rfl⟩
  exact ⟨bytes, hrun, info, c, hc, hsame, hrest⟩

end MustDb.Proofs.Storage
