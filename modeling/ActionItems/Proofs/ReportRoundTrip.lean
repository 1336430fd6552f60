import ActionItems.Report
import ActionItems.Proofs.JsonText

/-! # A report as JSON tells all of its findings

A finding is written with its members in the order of its fields and is read in the order of their
keys. Reading a member that was written sets one field of the draft and leaves the others
(`Draft.readAll_line`, `Draft.readAll_metadata`, `Draft.readAll_last`), and a member that was left
out leaves its field empty. Metadata ascends by its keys, so its members are read as they stand
(`members_of_ascending`) and every one goes behind those before it. -/

namespace ActionItems

/-! ### Members in ascending order -/

namespace Json

theorem members_of_ascending {ms : List (Text × Json)} (h : ms.Pairwise fun a b => a.1 < b.1) :
    members ms = ms :=
  Text.foldl_place_of_ascending h

theorem decodeNat_ofNat {bound n : Nat} (h : n < bound) (expected : Expected) :
    decodeNat bound expected (ofNat n) = .ok n := by
  have hn : 0 ≤ (n : Int) ∧ (n : Int) < bound := by omega
  rw [ofNat, decodeNat, if_pos hn, Int.toNat_natCast]

theorem decodeWord32_ofNat (n : UInt32) : decodeWord32 (ofNat n.toNat) = .ok n := by
  rw [decodeWord32, decodeNat_ofNat n.toNat_lt_size]
  simp [Except.map]

theorem decodeOption_of_ne_null {α : Type} {decode : Json → Decoded α} {v : Json} (h : v ≠ .null) :
    v.decodeOption decode = (decode v).map some := by
  cases v with
  | null => exact absurd rfl h
  | _ => rfl

end Json

namespace Metadata

theorem foldlM_insert : ∀ (l : List (Text × Text)) (m : Metadata)
    (h : (m.entries ++ l).Pairwise fun a b => a.1 < b.1),
    (l.map fun (k, v) => (k, Json.str v)).foldlM
      (fun m (k, v) => (Json.decodeText .string v).map (m.insert k)) m =
        (.ok ⟨m.entries ++ l, h⟩ : Decoded Metadata)
  | [], m, h => by
    simp only [List.map_nil, List.foldlM_nil, List.append_nil]
    rfl
  | (k, v) :: l, m, h => by
    have hlt : ∀ e ∈ m.entries, e.1 < k := fun e he =>
      (List.pairwise_append.mp h).2.2 e he (k, v) List.mem_cons_self
    have hentries : (m.insert k v).entries = m.entries ++ [(k, v)] := Text.place_of_forall_lt hlt
    have hrest := foldlM_insert l (m.insert k v) (by rw [hentries]; simpa using h)
    rw [List.map_cons, List.foldlM_cons]
    refine hrest.trans ?_
    simp only [hentries, List.append_assoc, List.cons_append, List.nil_append]

theorem decode_encode (m : Metadata) : decode m.encode = .ok m := by
  have hkeys : (m.entries.map fun (k, v) => (k, Json.str v)).Pairwise fun a b => a.1 < b.1 :=
    List.pairwise_map.mpr m.ascending
  rw [encode, decode, Json.members_of_ascending hkeys]
  exact foldlM_insert m.entries empty m.ascending

theorem isExact_encode (m : Metadata) : m.encode.IsExact := by
  refine .obj fun e he => ?_
  obtain ⟨⟨k, v⟩, -, rfl⟩ := List.mem_map.mp he
  exact .str v

end Metadata

/-! ### Findings -/

namespace Finding

/-- The members of a finding in the order of their keys. -/
def sortedMembers (f : Finding) : List (Text × Json) :=
  [("file".toList, .str f.file)] ++
    (f.line.map fun l => ("line".toList, Json.ofNat l.toNat)).toList ++
    (f.metadata.map fun m => ("meta".toList, m.encode)).toList ++
    [("raw".toList, .str f.raw), ("tag".toList, f.tag.encode), ("text".toList, .str f.text)]

namespace Draft

/-- Reads members in turn. -/
def readAll (d : Draft) (ms : List (Text × Json)) : Decoded Draft :=
  ms.foldlM (fun d (k, v) => d.read k v) d

theorem readAll_append {d d' : Draft} {ms : List (Text × Json)} (h : d.readAll ms = .ok d')
    (rest : List (Text × Json)) : d.readAll (ms ++ rest) = d'.readAll rest := by
  rw [readAll, List.foldlM_append]
  exact congrArg (· >>= fun d => d.readAll rest) h

theorem readAll_singleton {d d' : Draft} {k : Text} {v : Json} (h : d.read k v = .ok d') :
    d.readAll [(k, v)] = .ok d' := by
  rw [readAll, List.foldlM_cons]
  exact congrArg (· >>= pure) h

theorem read_line (d : Draft) (l : LineNumber) :
    d.read "line".toList (Json.ofNat l.toNat) = .ok { d with line := some l } := by
  rw [read, if_neg (by decide), if_neg (by decide), if_pos rfl,
    Json.decodeOption_of_ne_null (by simp [Json.ofNat]), Json.decodeWord32_ofNat]
  rfl

theorem read_metadata (d : Draft) (m : Metadata) :
    d.read "meta".toList m.encode = .ok { d with metadata := some m } := by
  rw [read, if_neg (by decide), if_neg (by decide), if_neg (by decide), if_neg (by decide),
    if_neg (by decide), if_pos rfl, Json.decodeOption_of_ne_null (by simp [Metadata.encode]),
    Metadata.decode_encode]
  rfl

theorem readAll_line {d : Draft} (h : d.line = none) (line : Option LineNumber) :
    d.readAll (line.map fun l => ("line".toList, Json.ofNat l.toNat)).toList =
      .ok { d with line } := by
  cases line with
  | none =>
    show Except.ok d = .ok { d with line := none }
    rw [← h]
  | some l => exact readAll_singleton (d.read_line l)

theorem readAll_metadata {d : Draft} (h : d.metadata = none) (metadata : Option Metadata) :
    d.readAll (metadata.map fun m => ("meta".toList, m.encode)).toList =
      .ok { d with metadata } := by
  cases metadata with
  | none =>
    show Except.ok d = .ok { d with metadata := none }
    rw [← h]
  | some m => exact readAll_singleton (d.read_metadata m)

theorem readAll_last (d : Draft) (f : Finding) :
    d.readAll [("raw".toList, .str f.raw), ("tag".toList, f.tag.encode),
      ("text".toList, .str f.text)] =
      .ok { d with raw := some f.raw, tag := some f.tag, text := some f.text } := by
  cases f.tag <;> rfl

end Draft

theorem readAll_sortedMembers (f : Finding) : ({} : Draft).readAll f.sortedMembers =
    .ok ⟨some f.tag, some f.file, f.line, some f.text, some f.raw, f.metadata⟩ := by
  have hfile : ({} : Draft).readAll [("file".toList, .str f.file)] = .ok { file := some f.file } :=
    rfl
  have hline := (Draft.readAll_append hfile _).trans (Draft.readAll_line rfl f.line)
  have hmetadata := (Draft.readAll_append hline _).trans (Draft.readAll_metadata rfl f.metadata)
  exact (Draft.readAll_append hmetadata _).trans (Draft.readAll_last _ f)

theorem decode_encode_eq (f : Finding) : decode f.encode =
    (({} : Draft).readAll f.sortedMembers).bind fun d =>
      d.finish fun field _ => .missing field := by
  obtain ⟨tag, file, line, text, raw, metadata⟩ := f
  -- which members there are decides their order
  cases line <;> cases metadata <;> rfl

theorem decode_encode (f : Finding) : decode f.encode = .ok f := by
  rw [decode_encode_eq, readAll_sortedMembers]
  rfl

theorem decodeAll_encode (fs : List Finding) : decodeAll (.arr (fs.map encode)) = .ok fs := by
  show (fs.map encode).mapM decode = .ok fs
  induction fs with
  | nil => rfl
  | cons f fs ih =>
    rw [List.map_cons, List.mapM_cons, decode_encode, ih]
    rfl

theorem isExact_encode (f : Finding) : f.encode.IsExact := by
  have hline : ∀ l : LineNumber, (Json.ofNat l.toNat).IsExact := by
    intro l
    have hlt := l.toNat_lt_size
    rw [UInt32.size] at hlt
    have hlow : -(UInt64.size / 2 : Nat) ≤ (l.toNat : Int) := by omega
    have hhigh : (l.toNat : Int) < UInt64.size := by
      rw [UInt64.size]
      omega
    exact .int hlow hhigh
  refine .obj fun m hm => ?_
  simp only [List.mem_append, List.mem_cons, List.not_mem_nil, or_false, Option.mem_toList,
    Option.map_eq_some_iff] at hm
  rcases hm with (((rfl | rfl) | ⟨l, -, rfl⟩) | rfl | rfl) | ⟨m, -, rfl⟩
  · exact .str _
  · exact .str _
  · exact hline l
  · exact .str _
  · exact .str _
  · exact m.isExact_encode

end Finding

/-- **A report as JSON** denotes a value, and decoding that value gives the findings back: each with
its texts, its line and its metadata, or without them. -/
theorem Report.parse_render_json (fs : List Finding) :
    (Json.parse (Report.render .json fs)).map Finding.decodeAll = some (.ok fs) := by
  have hexact : (Json.arr (fs.map Finding.encode)).IsExact := by
    refine .arr fun v hv => ?_
    obtain ⟨f, -, rfl⟩ := List.mem_map.mp hv
    exact f.isExact_encode
  have hend : ∀ c ∈ ['\n'], Json.isJsonBlank c = true := by simp [Json.isJsonBlank]
  have hparse : Json.parse (Report.render .json fs) = some (.arr (fs.map Finding.encode)) :=
    Json.parse_pretty hexact 0 hend
  rw [hparse, Option.map_some, Finding.decodeAll_encode]

end ActionItems
