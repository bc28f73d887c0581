import RestyFfi.Base.Word
import RestyFfi.Lua.BuildId
import RestyFfi.Lua.Ledger

/-!
# Looking for the build-id

`build_id_find_nhdr_by_name` and `build_id_find_nhdr_by_symbol` walk over the program headers of the
loaded objects, and over the notes in each `PT_NOTE` segment. The loop compares what is left of the
segment, a signed number, with a size, which makes it unsigned: it leaves the segment when a note
says that it is longer than what is left (`noteLoop_eq`). Linkers pad their notes, and then the loop
finds the first build-id of the segment or gets to its end.

With that the gate of `RestyFfi.Lua.BuildId` is followed from the segments of the running binary to
the steps of a worker (`NginxProcess.Runs.guarded`).
-/

namespace RestyFfi
open CString Numeral Transition

/-- The fields of `ElfW(Nhdr)`. -/
structure Nhdr where
  namesz : UInt32
  descsz : UInt32
  type : UInt32

/-- `ElfW(Phdr)` with the bytes that are mapped at `p_vaddr`. -/
structure Phdr where
  type : UInt32
  vaddr : UInt64
  filesz : UInt64
  contents : List UInt8
  length_contents : contents.length = filesz.toNat

/-- `struct dl_phdr_info`. -/
structure DlPhdrInfo where
  name : Option LuaString
  addr : UInt64
  phdrs : List Phdr

/-- `struct callback_data`, without the result. -/
inductive CallbackData where
  | byName (name : LuaString)
  | bySymbol (fbase : UInt64)

def ptLoad : UInt32 := 1

def ptNote : UInt32 := 4

def ntGnuBuildId : UInt32 := 3

/-- What comes of a search. -/
inductive NoteSearch where
  /-- It has read beyond the end of a segment. -/
  | outside
  | notFound
  /-- The bytes from the note to the end of its segment. -/
  | found (note : List UInt8)
  deriving DecidableEq

namespace Nhdr

/-- The size of a note in its segment. -/
def offset (nhdr : Nhdr) : UInt64 :=
  12 + (align4 nhdr.namesz).toUInt64 + (align4 nhdr.descsz).toUInt64

theorem toNat_offset_eq (nhdr : Nhdr) :
    nhdr.offset.toNat = 12 + (align4 nhdr.namesz).toNat + (align4 nhdr.descsz).toNat := by
  have hname := (align4 nhdr.namesz).toNat_lt
  have hdesc := (align4 nhdr.descsz).toNat_lt
  simp only [offset, UInt64.toNat_add, UInt32.toNat_toUInt64]
  have h12 : (12 : UInt64).toNat = 12 := rfl
  omega

end Nhdr

section
variable (o : ByteOrder)

def readNhdr (note : List UInt8) : Nhdr :=
  ⟨o.decode note, o.decode (note.drop 4), o.decode (note.drop 8)⟩

/-- The name that the note has room for in `struct build_id_note`. -/
def noteName (note : List UInt8) : List UInt8 := (note.drop 12).take 4

/-- The condition that the loop looks for. -/
def IsBuildId (note : List UInt8) : Prop :=
  (readNhdr o note).type = ntGnuBuildId ∧ (readNhdr o note).descsz ≠ 0 ∧
    (readNhdr o note).namesz = 4 ∧ noteName note = [71, 78, 85, 0]

instance (note : List UInt8) : Decidable (IsBuildId o note) := inferInstanceAs (Decidable (_ ∧ _))

/-- The loop over the notes of a segment: `note` is what follows up to the end of the segment, and
`len` the counter. -/
def noteLoop (note : List UInt8) (len : UInt64) : NoteSearch :=
  if 16 ≤ len then
    if note.length < 16 then .outside
    else if IsBuildId o note then .found note
    else noteLoop (note.drop (readNhdr o note).offset.toNat) (len - (readNhdr o note).offset)
  else .notFound
termination_by note.length
decreasing_by
  rw [List.length_drop, Nhdr.toNat_offset_eq]
  omega

/-- The loop over the program headers. -/
def phdrLoop : List Phdr → NoteSearch
  | [] => .notFound
  | p :: ps =>
    if p.type ≠ ptNote then phdrLoop ps
    else match noteLoop o p.contents p.filesz with
      | .notFound => phdrLoop ps
      | r => r

/-- Where the first `PT_LOAD` segment is mapped, or `NULL`. -/
def mapStart (info : DlPhdrInfo) : UInt64 :=
  match info.phdrs.find? (·.type = ptLoad) with
  | none => 0
  | some p => info.addr + p.vaddr

/-- `build_id_find_nhdr_callback`; `notFound` is the result 0. -/
def buildIdFindNhdrCallback (info : DlPhdrInfo) : CallbackData → NoteSearch
  | .byName name => if info.name = some name then phdrLoop o info.phdrs else .notFound
  | .bySymbol fbase => if mapStart info = fbase then phdrLoop o info.phdrs else .notFound

/-- `dl_iterate_phdr` calls back for one object after the other until a call is successful. -/
def dlIteratePhdr (data : CallbackData) : List DlPhdrInfo → NoteSearch
  | [] => .notFound
  | info :: infos => match buildIdFindNhdrCallback o info data with
    | .notFound => dlIteratePhdr data infos
    | r => r

def buildIdFindNhdrByName (infos : List DlPhdrInfo) (name : LuaString) : NoteSearch :=
  dlIteratePhdr o (.byName name) infos

/-- `dladdr` yields the `dli_fbase` of the object that the symbol belongs to. -/
def buildIdFindNhdrBySymbol (infos : List DlPhdrInfo) (dladdr : UInt64 → Option UInt64)
    (symbol : UInt64) : NoteSearch :=
  match dladdr symbol with
  | none => .notFound
  | some fbase => if fbase = 0 then .notFound else dlIteratePhdr o (.bySymbol fbase) infos

end

/-! ## Notes as linkers write them -/

/-- A note whose sizes do not make `ALIGN` wrap around. -/
structure Note where
  name : List UInt8
  desc : List UInt8
  type : UInt32
  name_lt : name.length + 3 < 2 ^ 32
  desc_lt : desc.length + 3 < 2 ^ 32

/-- The bytes with zeros up to a multiple of four. -/
def pad4 (s : List UInt8) : List UInt8 :=
  s ++ List.replicate ((s.length + 3) / 4 * 4 - s.length) 0

theorem length_pad4 (s : List UInt8) : (pad4 s).length = (s.length + 3) / 4 * 4 := by
  rw [pad4, List.length_append, List.length_replicate]
  omega

namespace Note
variable (o : ByteOrder) (n : Note)

def header : List UInt8 :=
  o.encode (.ofNat n.name.length) ++ (o.encode (.ofNat n.desc.length) ++ o.encode n.type)

def body : List UInt8 := pad4 n.name ++ pad4 n.desc

def encode : List UInt8 := n.header o ++ n.body

/-- A build-id note of GNU ld. -/
def IsBuildId : Prop := n.type = ntGnuBuildId ∧ n.desc ≠ [] ∧ n.name = [71, 78, 85, 0]

instance : Decidable n.IsBuildId := inferInstanceAs (Decidable (_ ∧ _))

theorem length_header : (n.header o).length = 12 := by
  simp [header, o.length_encode]

theorem toNat_namesz : (UInt32.ofNat n.name.length).toNat = n.name.length := by
  have := n.name_lt
  rw [UInt32.toNat_ofNat']
  omega

theorem toNat_descsz : (UInt32.ofNat n.desc.length).toNat = n.desc.length := by
  have := n.desc_lt
  rw [UInt32.toNat_ofNat']
  omega

theorem readNhdr_append (rest : List UInt8) : readNhdr o (n.header o ++ rest) =
    ⟨.ofNat n.name.length, .ofNat n.desc.length, n.type⟩ := by
  have h8 : ∀ l : List UInt8, l.drop 8 = (l.drop 4).drop 4 := fun l => by rw [List.drop_drop]
  simp only [readNhdr, header, List.append_assoc, h8, o.drop_encode_append, o.decode_encode_append]

theorem toNat_offset : (Nhdr.offset ⟨.ofNat n.name.length, .ofNat n.desc.length, n.type⟩).toNat =
    (n.encode o).length := by
  have hname := n.name_lt
  have hdesc := n.desc_lt
  rw [Nhdr.toNat_offset_eq, toNat_align4 (by rwa [n.toNat_namesz]),
    toNat_align4 (by rwa [n.toNat_descsz]), n.toNat_namesz, n.toNat_descsz, encode,
    List.length_append, n.length_header, body, List.length_append, length_pad4, length_pad4]
  omega

theorem noteName_append (rest : List UInt8) : noteName (n.header o ++ rest) = rest.take 4 := by
  rw [noteName, ← n.length_header o, List.drop_left]

/-- The loop recognises a note from its header and the first four bytes of its name. -/
theorem isBuildId_append_iff {rest : List UInt8}
    (hrest : n.name.length = 4 → rest.take 4 = n.body.take 4) :
    RestyFfi.IsBuildId o (n.header o ++ rest) ↔ n.IsBuildId := by
  have hdesc : UInt32.ofNat n.desc.length ≠ 0 ↔ n.desc ≠ [] := by
    rw [ne_eq, ← UInt32.toNat_inj, n.toNat_descsz]
    simp
  have hname : UInt32.ofNat n.name.length = 4 ↔ n.name.length = 4 := by
    rw [← UInt32.toNat_inj, n.toNat_namesz]
    rfl
  have hbody (hlen : n.name.length = 4) : n.body.take 4 = n.name := by
    have hpad : pad4 n.name = n.name := by simp [pad4, hlen]
    rw [body, hpad, ← hlen, List.take_left]
  rw [RestyFfi.IsBuildId, n.readNhdr_append, n.noteName_append, IsBuildId, hdesc, hname]
  refine and_congr_right fun _ => and_congr_right fun _ => ?_
  constructor
  · rintro ⟨hlen, h⟩
    rwa [hrest hlen, hbody hlen] at h
  · intro h
    have hlen : n.name.length = 4 := by rw [h]; rfl
    exact ⟨hlen, by rw [hrest hlen, hbody hlen, h]⟩

theorem length_encode : (n.encode o).length = 12 + n.body.length := by
  rw [encode, List.length_append, n.length_header]

theorem length_encode_of_isBuildId (h : n.IsBuildId) : 16 ≤ (n.encode o).length := by
  rw [length_encode, body, List.length_append, length_pad4, h.2.2]
  simp only [List.length_cons, List.length_nil]
  omega

end Note

section
variable (o : ByteOrder)

/-- The notes of a segment. -/
def notes (ns : List Note) : List UInt8 := ns.flatMap (Note.encode o)

variable {o} {n : Note} {ns : List Note} {rest : List UInt8} {k : Nat}

theorem noteLoop_of_lt {note : List UInt8} (h : note.length < 16) :
    noteLoop o note (.ofNat note.length) = .notFound := by
  rw [noteLoop, if_neg]
  rw [UInt64.le_iff_toNat_le, UInt64.toNat_ofNat']
  have h16 : (16 : UInt64).toNat = 16 := rfl
  omega

theorem noteLoop_of_le {note : List UInt8} {len : UInt64} (h : 16 ≤ note.length)
    (hlen : 16 ≤ len) : noteLoop o note len =
      if IsBuildId o note then .found note
      else noteLoop o (note.drop (readNhdr o note).offset.toNat)
        (len - (readNhdr o note).offset) := by
  rw [noteLoop, if_pos hlen, if_neg (not_lt.mpr h)]

theorem le_ofNat_length {l : Nat} (h : 16 ≤ l) (hlt : l < 2 ^ 64) : (16 : UInt64) ≤ .ofNat l := by
  rw [UInt64.le_iff_toNat_le, UInt64.toNat_ofNat', Nat.mod_eq_of_lt hlt]
  exact h

/-- A whole note. -/
theorem noteLoop_encode_append (hlt : (n.encode o ++ rest).length < 2 ^ 64) :
    noteLoop o (n.encode o ++ rest) (.ofNat (n.encode o ++ rest).length) =
      if n.IsBuildId then .found (n.encode o ++ rest)
      else noteLoop o rest (.ofNat rest.length) := by
  by_cases h16 : (n.encode o ++ rest).length < 16
  · have hno : ¬ n.IsBuildId := by
      intro h
      have := n.length_encode_of_isBuildId o h
      rw [List.length_append] at h16
      omega
    rw [if_neg hno, noteLoop_of_lt h16, noteLoop_of_lt]
    rw [List.length_append] at h16
    omega
  have h16 := not_lt.mp h16
  have happ : n.encode o ++ rest = n.header o ++ (n.body ++ rest) := List.append_assoc ..
  have hid : IsBuildId o (n.encode o ++ rest) ↔ n.IsBuildId := by
    rw [happ]
    refine n.isBuildId_append_iff o fun hlen => List.take_append_of_le_length ?_
    rw [Note.body, List.length_append, length_pad4, hlen]
    omega
  have hnhdr : readNhdr o (n.encode o ++ rest) =
      ⟨.ofNat n.name.length, .ofNat n.desc.length, n.type⟩ := by rw [happ, n.readNhdr_append]
  have hsub : (.ofNat (n.encode o ++ rest).length : UInt64) -
      Nhdr.offset ⟨.ofNat n.name.length, .ofNat n.desc.length, n.type⟩ = .ofNat rest.length := by
    rw [← UInt64.ofNat_toNat (x := Nhdr.offset _), n.toNat_offset o, List.length_append,
      UInt64.ofNat_add, add_sub_cancel_left]
  rw [noteLoop_of_le h16 (le_ofNat_length h16 hlt), hnhdr, hsub, n.toNat_offset o, List.drop_left]
  exact if_congr hid rfl rfl

/-- A note that is cut off. If it is not the one, the counter goes below zero, and on. -/
theorem noteLoop_take (hk : k < (n.encode o).length) (hlt : k < 2 ^ 64) :
    noteLoop o ((n.encode o).take k) (.ofNat k) =
      if k < 16 then .notFound
      else if n.IsBuildId then .found ((n.encode o).take k) else .outside := by
  have hlen : ((n.encode o).take k).length = k := List.length_take_of_le (Nat.le_of_lt hk)
  by_cases h16 : k < 16
  · have h := @noteLoop_of_lt o ((n.encode o).take k) (by rwa [hlen])
    rw [hlen] at h
    rw [if_pos h16, h]
  have h16 := not_lt.mp h16
  have htake : (n.encode o).take k = n.header o ++ n.body.take (k - 12) := by
    rw [Note.encode, List.take_append, n.length_header, List.take_of_length_le]
    rw [n.length_header]
    omega
  have hid : IsBuildId o ((n.encode o).take k) ↔ n.IsBuildId := by
    rw [htake]
    refine n.isBuildId_append_iff o fun _ => ?_
    rw [List.take_take, Nat.min_eq_left (by omega)]
  have hnhdr : readNhdr o ((n.encode o).take k) =
      ⟨.ofNat n.name.length, .ofNat n.desc.length, n.type⟩ := by rw [htake, n.readNhdr_append]
  rw [noteLoop_of_le (by rwa [hlen]) (le_ofNat_length h16 hlt), if_neg (not_lt.mpr h16), hnhdr]
  refine if_congr hid rfl ?_
  -- the rest of the segment is empty, and the counter has wrapped around
  rw [noteLoop, if_pos, if_pos]
  · rw [List.length_drop, hlen, n.toNat_offset o]
    omega
  · have hsmall : (Nhdr.offset ⟨.ofNat n.name.length, .ofNat n.desc.length, n.type⟩).toNat <
        2 ^ 34 := by
      have hname := (align4 (.ofNat n.name.length)).toNat_lt
      have hdesc := (align4 (.ofNat n.desc.length)).toNat_lt
      simp only [Nhdr.toNat_offset_eq]
      omega
    have hoff := n.toNat_offset o
    rw [UInt64.le_iff_toNat_le, UInt64.toNat_sub, UInt64.toNat_ofNat', Nat.mod_eq_of_lt hlt]
    have h16' : (16 : UInt64).toNat = 16 := rfl
    omega

/-- **The walk over a segment** that holds whole notes and the first `k` bytes of one more. It finds
the first build-id among the whole notes. Else it looks at the last note if there are 16 bytes of
it, and if that is not a build-id it goes beyond the end. -/
theorem noteLoop_eq (hk : k < (n.encode o).length) (hlt : (notes o ns).length + k < 2 ^ 64) :
    noteLoop o (notes o ns ++ (n.encode o).take k) (.ofNat ((notes o ns).length + k)) =
      match ns.dropWhile (¬ ·.IsBuildId) with
      | m :: ms => .found (notes o (m :: ms) ++ (n.encode o).take k)
      | [] => if k < 16 then .notFound
        else if n.IsBuildId then .found ((n.encode o).take k) else .outside := by
  have hlen : ((n.encode o).take k).length = k := List.length_take_of_le (Nat.le_of_lt hk)
  induction ns with
  | nil => simpa [notes] using noteLoop_take hk (by omega)
  | cons m ms ih =>
    have hcons : notes o (m :: ms) ++ (n.encode o).take k =
        m.encode o ++ (notes o ms ++ (n.encode o).take k) := by
      rw [notes, List.flatMap_cons, List.append_assoc, notes]
    have hl : (notes o (m :: ms)).length + k =
        (m.encode o ++ (notes o ms ++ (n.encode o).take k)).length := by
      rw [← hcons, List.length_append, hlen]
    rw [hl] at hlt
    rw [hl, hcons, noteLoop_encode_append hlt]
    have hrest : (notes o ms ++ (n.encode o).take k).length = (notes o ms).length + k := by
      rw [List.length_append, hlen]
    by_cases hm : m.IsBuildId
    · rw [if_pos hm, List.dropWhile_cons_of_neg (by simpa using hm)]
      simp only [hcons]
    · rw [if_neg hm, List.dropWhile_cons_of_pos (by simpa using hm), hrest]
      refine ih ?_
      rw [List.length_append, hrest] at hlt
      omega

/-- An ABI tag without its last four bytes. -/
theorem noteLoop_cut_abiTag : ∃ n : Note, n.type = 1 ∧ n.name = [71, 78, 85, 0] ∧
    n.desc.length = 16 ∧
      noteLoop .little ((n.encode .little).take 28) 28 = .outside := by
  refine ⟨⟨[71, 78, 85, 0], List.replicate 16 0, 1, by decide, by decide⟩, rfl, rfl, rfl, ?_⟩
  exact @noteLoop_eq .little _ [] 28 (by decide) (by decide)

/-! ## From the segments to the gate -/

/-- The first build-id among some notes. -/
def firstBuildId (ns : List Note) : Option Note := ns.find? (·.IsBuildId)

/-- The search ends at the note, or not if there is none. -/
def NoteSearch.At (o : ByteOrder) (r : NoteSearch) : Option Note → Prop
  | some m => ∃ rest, r = .found (m.encode o ++ rest)
  | none => r = .notFound

theorem noteLoop_at (hlt : (notes o ns).length < 2 ^ 64) :
    (noteLoop o (notes o ns) (.ofNat (notes o ns).length)).At o (firstBuildId ns) := by
  induction ns with
  | nil => exact noteLoop_of_lt (by simp [notes])
  | cons m ms ih =>
    rw [notes, List.flatMap_cons] at hlt ⊢
    rw [noteLoop_encode_append hlt, firstBuildId]
    by_cases hm : m.IsBuildId
    · rw [if_pos hm, List.find?_cons_of_pos (by simpa using hm)]
      exact ⟨_, rfl⟩
    · rw [if_neg hm, List.find?_cons_of_neg (by simpa using hm)]
      refine ih ?_
      rw [List.length_append] at hlt
      exact Nat.lt_of_le_of_lt (Nat.le_add_left ..) hlt

theorem filesz_eq (p : Phdr) : p.filesz = .ofNat p.contents.length := by
  rw [p.length_contents, UInt64.ofNat_toNat]

/-- The notes of the `PT_NOTE` segments. -/
def allNotes (notesOf : Phdr → List Note) (ps : List Phdr) : List Note :=
  (ps.filter (·.type = ptNote)).flatMap notesOf

theorem phdrLoop_at {ps : List Phdr} {notesOf : Phdr → List Note}
    (h : ∀ p ∈ ps, p.type = ptNote → p.contents = notes o (notesOf p)) :
    (phdrLoop o ps).At o (firstBuildId (allNotes notesOf ps)) := by
  induction ps with
  | nil => rfl
  | cons p ps ih =>
    have ih := ih fun p hp => h p (List.mem_cons_of_mem _ hp)
    rw [allNotes]
    by_cases hp : p.type = ptNote
    · have hc := h p List.mem_cons_self hp
      have hwalk := @noteLoop_at o (notesOf p) (hc ▸ p.length_contents ▸ p.filesz.toNat_lt)
      rw [← hc, ← filesz_eq] at hwalk
      rw [List.filter_cons_of_pos (by simpa using hp), List.flatMap_cons, firstBuildId,
        List.find?_append, phdrLoop, if_neg (not_not.mpr hp)]
      rw [firstBuildId] at hwalk
      cases hf : (notesOf p).find? (·.IsBuildId) with
      | none =>
        rw [hf] at hwalk
        rw [show noteLoop o p.contents p.filesz = .notFound from hwalk]
        exact ih
      | some m =>
        rw [hf] at hwalk
        obtain ⟨rest, hwalk⟩ := hwalk
        rw [hwalk]
        exact ⟨rest, rfl⟩
    · rw [List.filter_cons_of_neg (by simpa using hp), phdrLoop, if_pos hp]
      exact ih

theorem dlIteratePhdr_of_forall {infos : List DlPhdrInfo} {data : CallbackData}
    (h : ∀ info ∈ infos, buildIdFindNhdrCallback o info data = .notFound) :
    dlIteratePhdr o data infos = .notFound := by
  induction infos with
  | nil => rfl
  | cons info infos ih =>
    rw [dlIteratePhdr, h info List.mem_cons_self]
    exact ih fun info hi => h info (List.mem_cons_of_mem _ hi)

/-- The note that a pointer designates; `none` if its build-id goes beyond the segment. -/
def buildIdNote (o : ByteOrder) (note : List UInt8) : Option BuildIdNote :=
  let descsz := (readNhdr o note).descsz
  let buildId := (note.drop 16).take descsz.toNat
  if h : buildId.length = descsz.toNat then some ⟨descsz, buildId, h⟩ else none

theorem buildIdNote_append (h : n.IsBuildId) : ∃ note,
    buildIdNote o (n.encode o ++ rest) = some note ∧ note.buildId = n.desc := by
  have happ : n.encode o ++ rest = n.header o ++ (n.body ++ rest) := List.append_assoc ..
  have hdata : (n.encode o ++ rest).drop 16 = pad4 n.desc ++ rest := by
    have hname : pad4 n.name = n.name := by simp [pad4, h.2.2]
    have h16 : (n.header o ++ n.name).length = 16 := by
      rw [List.length_append, n.length_header, h.2.2]
      rfl
    rw [Note.encode, Note.body, hname, ← List.append_assoc, List.append_assoc, ← h16,
      List.drop_left]
  have htake : ((n.encode o ++ rest).drop 16).take n.desc.length = n.desc := by
    rw [hdata, pad4, List.append_assoc, List.take_left]
  have hdescsz : (readNhdr o (n.encode o ++ rest)).descsz.toNat = n.desc.length := by
    rw [happ, n.readNhdr_append, n.toNat_descsz]
  have hlen : (((n.encode o ++ rest).drop 16).take
      (readNhdr o (n.encode o ++ rest)).descsz.toNat).length =
        (readNhdr o (n.encode o ++ rest)).descsz.toNat := by rw [hdescsz, htake]
  refine ⟨_, dif_pos hlen, ?_⟩
  simp only [hdescsz, htake]

end

/-! ## The running binary -/

/-- The symbols of an nginx binary that `nm` prints the values of. -/
structure NginxSymbols where
  ngxCycle : UInt64
  ngxCalloc : UInt64
  ngxThreadPoolDone : UInt64
  ngxThreadPoolDoneLock : UInt64
  ngxThreadPoolHandler : UInt64

/-- `generate_offsets` and the extraction of `BUILD_ID` in `build_shared.sh`, for a binary with the
given symbols and build-id. -/
def generateSymbolsH (syms : NginxSymbols) (buildId : List UInt8) : SymbolsH where
  ngxBuildId := hex buildId ++ [0]
  ngxThreadPoolDoneOffset := syms.ngxThreadPoolDone - syms.ngxCycle
  ngxThreadPoolDoneLockOffset := syms.ngxThreadPoolDoneLock - syms.ngxCycle
  ngxThreadPoolHandlerOffset := syms.ngxThreadPoolHandler - syms.ngxCalloc

/-- The symbols where the binary is loaded. -/
def NginxSymbols.relocate (syms : NginxSymbols) (base : UInt64) : NgxSymbols where
  ngxThreadPoolDone := base + syms.ngxThreadPoolDone
  ngxThreadPoolDoneLock := base + syms.ngxThreadPoolDoneLock
  ngxThreadPoolHandler := base + syms.ngxThreadPoolHandler

/-- A running nginx: the main program is the first of the loaded objects and has an empty name. -/
structure NginxProcess (o : ByteOrder) where
  symbols : NginxSymbols
  main : DlPhdrInfo
  libraries : List DlPhdrInfo
  notesOf : Phdr → List Note
  name_main : main.name = some []
  name_libraries : ∀ l ∈ libraries, l.name ≠ some []
  contents_eq : ∀ p ∈ main.phdrs, p.type = ptNote → p.contents = notes o (notesOf p)

namespace NginxProcess
variable {o : ByteOrder} (P : NginxProcess o)

def buildId : Option Note := firstBuildId (allNotes P.notesOf P.main.phdrs)

theorem dlIteratePhdr_libraries : dlIteratePhdr o (.byName []) P.libraries = .notFound :=
  dlIteratePhdr_of_forall fun l hl => if_neg (P.name_libraries l hl)

theorem find_at :
    (buildIdFindNhdrByName o (P.main :: P.libraries) []).At o P.buildId := by
  have h := phdrLoop_at P.contents_eq
  rw [← buildId] at h
  rw [buildIdFindNhdrByName, dlIteratePhdr, buildIdFindNhdrCallback, if_pos P.name_main]
  cases hid : P.buildId with
  | none =>
    rw [hid] at h
    rw [show phdrLoop o P.main.phdrs = .notFound from h]
    exact P.dlIteratePhdr_libraries
  | some m =>
    rw [hid] at h
    obtain ⟨rest, h⟩ := h
    rw [h]
    exact ⟨rest, rfl⟩

/-- The two searches agree on a symbol of the main program, if nothing else is mapped where it is. -/
theorem bySymbol_eq_byName {dladdr : UInt64 → Option UInt64} {symbol : UInt64}
    (hsym : dladdr symbol = some (mapStart P.main)) (h0 : mapStart P.main ≠ 0)
    (hlibs : ∀ l ∈ P.libraries, mapStart l ≠ mapStart P.main) :
    buildIdFindNhdrBySymbol o (P.main :: P.libraries) dladdr symbol =
      buildIdFindNhdrByName o (P.main :: P.libraries) [] := by
  have hlibs : dlIteratePhdr o (.bySymbol (mapStart P.main)) P.libraries = .notFound :=
    dlIteratePhdr_of_forall fun l hl => if_neg (hlibs l hl)
  simp only [buildIdFindNhdrBySymbol, hsym, if_neg h0, buildIdFindNhdrByName, dlIteratePhdr,
    buildIdFindNhdrCallback, P.name_main, if_true, hlibs, P.dlIteratePhdr_libraries]

/-- `lua_resty_ffi_init()` in the process. -/
def init (h : SymbolsH) (behind : Nat) : Option BuildIdCheck :=
  let init := luaRestyFfiInit h (P.main.addr + P.symbols.ngxCycle)
    (P.main.addr + P.symbols.ngxCalloc) behind
  match buildIdFindNhdrByName o (P.main :: P.libraries) [] with
  | .outside => none
  | .notFound => init none
  | .found note => match buildIdNote o note with
    | none => none
    | some note => init (some note)

/-- The build-id of the process is the given one. -/
def Matches (id : List UInt8) : Prop := P.buildId.map Note.desc = some id

section
variable {syms : NginxSymbols} {id : List UInt8} {h : SymbolsH} {behind : Nat} {m : Note}
  {e : BuildIdCheck}

theorem init_of_none (hid : P.buildId = none) : P.init h behind = some .noNote := by
  have hfind := P.find_at
  rw [hid] at hfind
  rw [init, show buildIdFindNhdrByName o _ [] = .notFound from hfind]
  rfl

/-- With a build-id, `init` is the check of a note that holds it. -/
theorem exists_note (hid : P.buildId = some m) : ∃ note : BuildIdNote, note.buildId = m.desc ∧
    ∀ h behind, P.init h behind = luaRestyFfiInit h (P.main.addr + P.symbols.ngxCycle)
      (P.main.addr + P.symbols.ngxCalloc) behind (some note) := by
  have hfind := P.find_at
  rw [hid] at hfind
  obtain ⟨rest, hfind⟩ := hfind
  have hm : m.IsBuildId := by
    have hsome := List.find?_some (p := (decide <| Note.IsBuildId ·)) hid
    simpa using hsome
  obtain ⟨note, hnote, hdesc⟩ := @buildIdNote_append o m rest hm
  refine ⟨note, hdesc, fun h behind => ?_⟩
  rw [init, hfind]
  simp only [hnote]

theorem str_ngxBuildId : str (generateSymbolsH syms id).ngxBuildId 0 = hex id := by
  have h : str ([] ++ (hex id ++ 0 :: [])) 0 = hex id := str_append (zero_notMem_hex id)
  simpa [generateSymbolsH] using h

theorem relocate_eq (base c x : UInt64) : base + c + (x - c) = base + x := by
  rw [add_assoc, add_sub_cancel]

theorem exists_init (hid : P.buildId = some m) (hlt : m.desc.length * 2 + 100 < 2 ^ 32)
    (h : SymbolsH) (behind : Nat) : ∃ e, P.init h behind = some e := by
  obtain ⟨note, hnote, hcheck⟩ := P.exists_note hid
  have hlen : note.descsz.toNat = m.desc.length := by rw [← note.length_buildId, hnote]
  rw [hcheck, luaRestyFfiInit_of_lt (by rwa [hlen])]
  split_ifs <;> exact ⟨_, rfl⟩

/-- For a binary with the same symbols the pointers are right, wherever it has been loaded. -/
theorem init_of_some (hid : P.buildId = some m) (hsyms : P.Matches id → P.symbols = syms)
    (hinit : P.init (generateSymbolsH syms id) behind = some e) (behind' : Nat) :
    P.init (generateSymbolsH syms id) behind' = some
      (if m.desc = id then .resolved (P.symbols.relocate P.main.addr)
        else .mismatch (mismatchText (hex m.desc) (hex id))) := by
  obtain ⟨note, hdesc, hcheck⟩ := P.exists_note hid
  have hlt : note.descsz.toNat * 2 + 100 < 2 ^ 32 := by
    by_contra hle
    rw [hcheck, luaRestyFfiInit_of_le (not_lt.mp hle)] at hinit
    cases hinit
  rw [hcheck, luaRestyFfiInit_of_lt hlt, str_ngxBuildId, hdesc]
  by_cases heq : m.desc = id
  · have hsyms : P.symbols = syms := hsyms (by rw [Matches, hid, ← heq]; rfl)
    rw [if_pos heq, if_neg (not_not.mpr (congrArg hex heq)), ← hsyms]
    simp only [generateSymbolsH, NginxSymbols.relocate, relocate_eq]
  · rw [if_neg heq, if_pos (hex_injective.ne heq)]

theorem rc_eq_zero_iff (hsyms : P.Matches id → P.symbols = syms)
    (hinit : P.init (generateSymbolsH syms id) behind = some e) : e.rc = 0 ↔ P.Matches id := by
  cases hid : P.buildId with
  | none =>
    rw [P.init_of_none hid] at hinit
    cases hinit
    simp [BuildIdCheck.rc, Matches, hid]
  | some m =>
    rw [P.init_of_some hid hsyms hinit behind] at hinit
    cases hinit
    by_cases heq : m.desc = id <;> simp [BuildIdCheck.rc, Matches, hid, heq]

theorem init_of_matches (hid : P.Matches id) (hsyms : P.symbols = syms)
    (hinit : P.init (generateSymbolsH syms id) behind = some e) (behind' : Nat) :
    P.init (generateSymbolsH syms id) behind' =
      some (.resolved (P.symbols.relocate P.main.addr)) := by
  obtain ⟨m, hm, hdesc⟩ := Option.map_eq_some_iff.mp hid
  rw [P.init_of_some hm (fun _ => hsyms) hinit, if_pos hdesc]

end

/-! ## Runs of the process -/

end NginxProcess

section
variable {Lib : Type} (resolve : LuaString → Lib) (L : LuaState Lib)

/-- The library with the C side is open. -/
def LuaState.HasC : Prop := ∃ n, L.handles.get n = some (resolve (ascii "resty_ffi"))

/-- What `load_ffi` gets to see in the process. The C side is not in nginx, but its symbols are
global while its library is open (`ffi.load("resty_ffi", true)`). If the library is found, its
`lua_resty_ffi_init` has returned. -/
def NginxProcess.Answers {o : ByteOrder} (P : NginxProcess o) (h : SymbolsH) (env : LoadEnv) :
    Prop :=
  (env.symbol = true ↔ L.HasC resolve) ∧
    ∀ rc, env.resty = some rc → ∃ behind e, P.init h behind = some e ∧ e.rc = rc

/-- A `load_ffi` that has not got on before finds no library open that was refused. Such a library
stays open until its handle is collected. -/
def SysEvent.Checked {Th α : Type} : SysEvent Th Lib α → Prop
  | .load .. => L.init = false → ¬ L.HasC resolve
  | _ => True

end

/-- The step gets to the C side, or past the first part of `load_ffi`. -/
def SysEvent.UsesC {Th Lib α : Type} : SysEvent Th Lib α → Prop
  | .load _ _ _ _ r _ => r ≠ .unavailable
  | .call _ _ c => c ≠ none
  | .queue .. => True
  | .collect _ => False

section
variable {Th Lib α : Type}

/-- The steps of a worker in the process. -/
inductive NginxProcess.Step [DecidableEq Th] {o : ByteOrder} (P : NginxProcess o) (h : SymbolsH)
    (resolve : LuaString → Lib) (s : System Th Lib α) :
    SysEvent Th Lib α → System Th Lib α → Prop where
  | load : P.Answers resolve s.lua h env →
    s.lua.loadFfi resolve env s.queues.next lib cfg opts = (L, r) →
    NginxProcess.Step P h resolve s (.load env lib cfg opts r s.queues.next) {
      lua := L
      queues := if r.createsQueue then s.queues.push (.init (Opts.maxQueueOf opts)) else s.queues }
  | other : (∀ env lib cfg opts r q, e ≠ .load env lib cfg opts r q) → System.Step resolve s e s' →
    NginxProcess.Step P h resolve s e s'

namespace NginxProcess
variable {o : ByteOrder} {P : NginxProcess o} {h : SymbolsH} {resolve : LuaString → Lib}
  {s s' : System Th Lib α} {e : SysEvent Th Lib α} {es : List (SysEvent Th Lib α)} {env : LoadEnv}
  {q behind : Nat} {lib : LuaString} {cfg : Option LuaString} {opts : Option Opts}
  {L L' : LuaState Lib} {r : LoadResult Lib} {b : BuildIdCheck} {syms : NginxSymbols}
  {id : List UInt8}

/-- A run in which no `load_ffi` finds a refused library open. -/
abbrev CheckedRuns [DecidableEq Th] (P : NginxProcess o) (h : SymbolsH)
    (resolve : LuaString → Lib) (es : List (SysEvent Th Lib α)) (s : System Th Lib α) : Prop :=
  Run (fun s e s' => P.Step h resolve s e s' ∧ e.Checked resolve s.lua) System.init es s

theorem Answers.symbol_false (hans : P.Answers resolve L h env) (hL : ¬ L.HasC resolve) :
    env.symbol = false := Bool.eq_false_iff.mpr fun hsym => hL (hans.1.mp hsym)

theorem Answers.resty_ne (hans : P.Answers resolve L h env)
    (hno : ∀ behind e, P.init h behind = some e → e.rc ≠ 0) : env.resty ≠ some 0 := by
  intro h0
  obtain ⟨behind, e, hinit, hrc⟩ := hans.2 0 h0
  exact hno behind e hinit hrc

theorem loadFfi_refused (hinit : L.init = false) (hsym : env.symbol = false)
    (hrc : env.resty ≠ some 0) (hload : L.loadFfi resolve env q lib cfg opts = (L', r)) :
    L'.init = false ∧ r = .unavailable ∧ (env.resty ≠ none → L'.HasC resolve) := by
  have hrefused : (L.initialise resolve env).1.init = false ∧
      (L.initialise resolve env).2 = false ∧
      (env.resty ≠ none → (L.initialise resolve env).1.HasC resolve) := by
    simp only [LuaState.initialise, hinit, hsym, Bool.false_eq_true, if_false]
    cases hresty : env.resty with
    | none => exact ⟨hinit, rfl, fun h => (h rfl).elim⟩
    | some rc =>
      rw [hresty] at hrc
      have hne : rc ≠ 0 := fun h => hrc (h ▸ rfl)
      simp only [hne, ne_eq, not_false_eq_true, if_true]
      exact ⟨trivial, trivial, fun _ => ⟨_, Arena.push_get_next⟩⟩
  rcases hi : L.initialise resolve env with ⟨L₁, ok⟩
  rw [hi] at hrefused
  obtain ⟨hL, hok, hopen⟩ := hrefused
  simp only at hL hok hopen
  subst hok
  simp only [LuaState.loadFfi, hi] at hload
  cases hload
  exact ⟨hL, rfl, hopen⟩

theorem loadFfi_available_iff (hload : L.loadFfi resolve env q lib cfg opts = (L', r)) :
    r ≠ .unavailable ↔ L.init = true ∨ env.symbol = true ∨ env.resty = some 0 := by
  rw [← LuaState.loadFfi_ne_unavailable_iff, hload]

/-- The symbols are found, and nothing is checked. -/
theorem Answers.unchecked (hans : P.Answers resolve L h env) (hopen : L.HasC resolve)
    (hload : L.loadFfi resolve env q lib cfg opts = (L', r)) : r ≠ .unavailable :=
  (loadFfi_available_iff hload).mpr (.inr (.inl (hans.1.mpr hopen)))

variable [DecidableEq Th]

theorem Step.sys (h : P.Step h resolve s e s') : System.Step resolve s e s' := by
  cases h with
  | load _ h => exact .load h
  | other _ h => exact h

/-- In a process that the check refuses, nothing gets anywhere. -/
theorem Runs.refused (H : CheckedRuns P h resolve es s)
    (hno : ∀ behind e, P.init h behind = some e → e.rc ≠ 0) :
    s.lua.init = false ∧ (∀ q, s.queues.get q = none) ∧ ∀ e ∈ es, ¬ e.UsesC := by
  induction H with
  | nil => exact ⟨rfl, fun _ => rfl, by simp⟩
  | @snoc es t e u H hstep ih =>
    obtain ⟨hinit, hq, hes⟩ := ih
    have hsnoc (he : ¬ e.UsesC) : ∀ e' ∈ es ++ [e], ¬ e'.UsesC := by
      simpa [or_imp, forall_and] using ⟨hes, he⟩
    have I : t.Inv resolve := System.Runs.inv (H.mono fun h => h.1.sys)
    obtain ⟨hstep, hcheck⟩ := hstep
    cases hstep with
    | load hans hload =>
      obtain ⟨hL, rfl, -⟩ := loadFfi_refused hinit (hans.symbol_false (hcheck hinit))
        (hans.resty_ne hno) hload
      exact ⟨hL, hq, hsnoc fun h => h rfl⟩
    | other hne hstep =>
      cases hstep with
      | load => exact absurd rfl (hne _ _ _ _ _ _)
      | idle h => exact ⟨(I.lua.call_move h).init_eq.trans hinit, hq, hsnoc fun h => h rfl⟩
      | post _ hp | finish _ hp | poll hp =>
        rw [hq] at hp
        cases hp
      | collect => exact ⟨hinit, hq, hsnoc id⟩

theorem not_hasC_empty : ¬ (LuaState.empty : LuaState Lib).HasC resolve := fun ⟨_, h⟩ => nomatch h

/-- Any such process can be got into: the second `load_ffi` finds the library of the first one
open. -/
theorem exists_unchecked (hinit : P.init h behind = some b) (hrc : b.rc ≠ 0) :
    ∃ (es : List (SysEvent Th Lib α)) (s : System Th Lib α),
      Run (P.Step h resolve) System.init es s ∧ ∃ e ∈ es, e.UsesC := by
  have hans₁ : P.Answers resolve .empty h ⟨false, some b.rc, true, some 0⟩ :=
    ⟨by simp [not_hasC_empty], fun rc h => ⟨behind, b, hinit, Option.some.inj h⟩⟩
  rcases hload₁ : (LuaState.empty : LuaState Lib).loadFfi resolve ⟨false, some b.rc, true, some 0⟩
    0 (ascii "echo") none none with ⟨L₁, r₁⟩
  obtain ⟨-, -, hopen⟩ := loadFfi_refused rfl rfl (by simpa using hrc) hload₁
  have H₁ := Run.single (Step.load (s := (System.init : System Th Lib α)) hans₁ hload₁)
  generalize hs : System.mk L₁ _ = s₁ at H₁
  have hans₂ : P.Answers resolve s₁.lua h ⟨true, none, true, some 0⟩ := by
    subst hs
    exact ⟨by simp [hopen (by simp)], fun _ h => nomatch h⟩
  rcases hload₂ : s₁.lua.loadFfi resolve ⟨true, none, true, some 0⟩ s₁.queues.next (ascii "echo")
    none none with ⟨L₂, r₂⟩
  exact ⟨_, _, H₁.snoc (.load hans₂ hload₂), _, List.mem_append_right _ (List.mem_singleton_self _),
    (loadFfi_available_iff hload₂).mpr (.inr (.inl rfl))⟩

/-- What the check is good for. -/
structure Guarded (P : NginxProcess o) (syms : NginxSymbols) (id : List UInt8)
    (resolve : LuaString → Lib) (es : List (SysEvent Th Lib α)) (s : System Th Lib α) : Prop where
  /-- Where a step has got to the C side, the running binary has the build-id, and the pointers of
  `lua_resty_ffi_init` are right wherever it has been loaded. -/
  uses : ∀ e ∈ es, e.UsesC → P.Matches id ∧ ∃ behind, P.init (generateSymbolsH syms id) behind =
    some (.resolved (P.symbols.relocate P.main.addr))
  /-- The next `load_ffi` that finds the library gets on exactly if the build-ids match. -/
  next : ∀ {env q lib cfg opts L r}, P.Answers resolve s.lua (generateSymbolsH syms id) env →
    env.resty ≠ none → (s.lua.init = false → ¬ s.lua.HasC resolve) →
    s.lua.loadFfi resolve env q lib cfg opts = (L, r) → (r ≠ .unavailable ↔ P.Matches id)
  /-- But not if it finds one open that was refused. -/
  unchecked : ∀ {env q lib cfg opts L r}, P.Answers resolve s.lua (generateSymbolsH syms id) env →
    s.lua.HasC resolve → s.lua.loadFfi resolve env q lib cfg opts = (L, r) → r ≠ .unavailable

/-- **The gate in a running nginx.** The library has been built for a binary with the symbols `syms`
and the build-id `id`. -/
theorem Runs.guarded (H : CheckedRuns P (generateSymbolsH syms id) resolve es s)
    (hsyms : P.Matches id → P.symbols = syms) : Guarded P syms id resolve es s := by
  by_cases hno : ∃ behind e, P.init (generateSymbolsH syms id) behind = some e ∧ e.rc = 0
  · obtain ⟨behind, b, hinit, h0⟩ := hno
    have hid : P.Matches id := (P.rc_eq_zero_iff hsyms hinit).mp h0
    refine ⟨fun _ _ _ => ⟨hid, behind, P.init_of_matches hid (hsyms hid) hinit behind⟩,
      fun {env q lib cfg opts L r} hans hne _ hload => iff_of_true ?_ hid, Answers.unchecked⟩
    obtain ⟨rc, hrc⟩ := Option.ne_none_iff_exists'.mp hne
    obtain ⟨behind, e, hinit, rfl⟩ := hans.2 rc hrc
    have h0 : e.rc = 0 := (P.rc_eq_zero_iff hsyms hinit).mpr hid
    exact (loadFfi_available_iff hload).mpr (.inr (.inr (h0 ▸ hrc)))
  · have hno : ∀ behind e, P.init (generateSymbolsH syms id) behind = some e → e.rc ≠ 0 :=
      fun behind e hinit h0 => hno ⟨behind, e, hinit, h0⟩
    obtain ⟨hinit, -, hes⟩ := Runs.refused H hno
    refine ⟨fun e he huse => absurd huse (hes e he),
      fun {env _ _ _ _ _ _} hans hne hcheck hload => ?_, Answers.unchecked⟩
    have hr := (loadFfi_refused hinit (hans.symbol_false (hcheck hinit)) (hans.resty_ne hno)
      hload).2.1
    obtain ⟨rc, hrc⟩ := Option.ne_none_iff_exists'.mp hne
    obtain ⟨behind, e, hb, rfl⟩ := hans.2 rc hrc
    rw [hr, ← P.rc_eq_zero_iff hsyms hb]
    exact iff_of_false (fun h => h rfl) (hno behind e hb)

end NginxProcess
end

/-- A build-id of 20 bytes. -/
def demoNote : Note :=
  ⟨[71, 78, 85, 0], List.replicate 20 7, ntGnuBuildId, by decide, by decide⟩

def demoSegment : Phdr where
  type := ptNote
  vaddr := 0x254
  filesz := 36
  contents := notes .little [demoNote]
  length_contents := by decide

def demoProcess : NginxProcess .little where
  symbols := ⟨0x9a0, 0x210, 0x9c0, 0x9d0, 0x250⟩
  main := ⟨some [], 0x400000, [demoSegment]⟩
  libraries := [⟨some (ascii "libc.so.6"), 0x7f000000, []⟩]
  notesOf _ := [demoNote]
  name_main := rfl
  name_libraries := by decide
  contents_eq := by simp [demoSegment]

/-- `libecho.so` is loaded into it. -/
theorem NginxProcess.Runs.guarded_demoProcess :
    ∃ (e : SysEvent Unit LuaString Unit) (s : System Unit LuaString Unit) (behind : Nat),
      CheckedRuns demoProcess (generateSymbolsH demoProcess.symbols (List.replicate 20 7)) id [e]
        s ∧ e.UsesC ∧
      demoProcess.init (generateSymbolsH demoProcess.symbols (List.replicate 20 7)) behind =
        some (.resolved ⟨0x4009c0, 0x4009d0, 0x400250⟩) := by
  have hid : demoProcess.Matches (List.replicate 20 7) := rfl
  obtain ⟨e, hinit⟩ := demoProcess.exists_init (m := demoNote) rfl (by decide)
    (generateSymbolsH demoProcess.symbols (List.replicate 20 7)) 0
  have h0 : e.rc = 0 := (demoProcess.rc_eq_zero_iff (fun _ => rfl) hinit).mpr hid
  have hans : demoProcess.Answers id .empty
      (generateSymbolsH demoProcess.symbols (List.replicate 20 7)) ⟨false, some 0, true, some 0⟩ :=
    ⟨by simp [not_hasC_empty], fun rc hrc => ⟨0, e, hinit, h0.trans (Option.some.inj hrc)⟩⟩
  rcases hload : (System.init : System Unit LuaString Unit).lua.loadFfi id
    ⟨false, some 0, true, some 0⟩ 0 (ascii "libecho.so") none none with ⟨L, r⟩
  have H₀ : CheckedRuns demoProcess (generateSymbolsH demoProcess.symbols (List.replicate 20 7)) id
    [] (System.init : System Unit LuaString Unit) := .nil
  have hr : r ≠ .unavailable :=
    ((Runs.guarded H₀ fun _ => rfl).next hans (by simp) (fun _ => not_hasC_empty) hload).mpr hid
  have H : CheckedRuns demoProcess _ id _ _ := H₀.snoc ⟨.load hans hload, fun _ => not_hasC_empty⟩
  obtain ⟨-, behind, hres⟩ := (Runs.guarded H fun _ => rfl).uses _ (List.mem_singleton_self _) hr
  exact ⟨_, _, behind, H, hr, hres⟩

end RestyFfi
