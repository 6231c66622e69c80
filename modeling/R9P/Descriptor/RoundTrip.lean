import R9P.Descriptor.Loopback

/-!
# Reading a descriptor back

Library `Descriptor`. `Valid` collects what a descriptor needs to be rendered and read back.
Whatever is parsed is valid, and so is what is rendered, except that rendering does not look at
the mount paths: they are joined with commas and trimmed by the reader.
-/

namespace R9P.Descriptor
open Std Base Base.Text Wire
open List (mem_append mem_cons_of_mem mem_cons_self mem_map)

variable {d : ExportDescriptor} {field value line : Text} {entry : Text × Text}
  {entries : List (Text × Text)} {read read' : Fields × Fields}

/-! ### Lines -/

/-- A value that fits on its line. -/
def IsToken (value : Text) : Prop := '\t' ∉ value ∧ '\n' ∉ value ∧ '\r' ∉ value

theorem validateToken_ok {u : Unit} : validateToken field value = .ok u ↔ IsToken value := by
  rw [validateToken, refuse_ok, not_or, not_or, IsToken]

private theorem isToken_decimal (n : Nat) : IsToken (decimal n) := by
  have hn {c : Char} (hc : c.isDigit = false) : c ∉ decimal n := by
    intro hm
    cases hc.symm.trans (isDigit_of_mem_decimal hm)
  exact ⟨hn rfl, hn rfl, hn rfl⟩

private theorem IsToken.of_subset {a b : Text} (h : IsToken b) (hs : ∀ c ∈ a, c ∈ b) : IsToken a :=
  ⟨fun hc => h.1 (hs _ hc), fun hc => h.2.1 (hs _ hc), fun hc => h.2.2 (hs _ hc)⟩

theorem IsToken.append {a b : Text} (ha : IsToken a) (hb : IsToken b) : IsToken (a ++ b) := by
  unfold IsToken
  simp only [mem_append, not_or]
  exact ⟨⟨ha.1, hb.1⟩, ⟨ha.2.1, hb.2.1⟩, ⟨ha.2.2, hb.2.2⟩⟩

/-- The line of a field. -/
def lineOf (entry : Text × Text) : Text := entry.1 ++ '\t' :: entry.2

/-- A field that can be written on a line of its own. -/
def Written (entry : Text × Text) : Prop := IsToken entry.1 ∧ IsToken entry.2

private theorem renderLines_ok {out : Text} : ExportDescriptor.renderLines entries = .ok out ↔
    (∀ entry ∈ entries, Written entry) ∧ out = unlines (entries.map lineOf) := by
  induction entries generalizing out with
  | nil => simp [ExportDescriptor.renderLines, unlines, eq_comm]
  | cons entry entries ih =>
    unfold ExportDescriptor.renderLines
    rw [check_ok, check_ok, validateToken_ok, validateToken_ok, bind_ok,
      List.forall_mem_cons]
    constructor
    · rintro ⟨hf, hv, rest, hr, heq⟩
      obtain ⟨he, rfl⟩ := ih.mp hr
      cases heq
      refine ⟨⟨⟨hf, hv⟩, he⟩, ?_⟩
      simp [unlines, lineOf]
    · rintro ⟨⟨⟨hf, hv⟩, he⟩, rfl⟩
      refine ⟨hf, hv, _, ih.mpr ⟨he, rfl⟩, ?_⟩
      simp [unlines, lineOf]

private theorem lines_entries (h : ∀ entry ∈ entries, Written entry) :
    lines (unlines (entries.map lineOf)) = entries.map lineOf := by
  apply lines_unlines
  intro part hp
  obtain ⟨entry, he, rfl⟩ := mem_map.mp hp
  obtain ⟨⟨-, hn₁, hr₁⟩, -, hn₂, hr₂⟩ := h entry he
  simp [lineOf, hn₁, hr₁, hn₂, hr₂]

/-- A field with a name that is reserved or fit for an extension. -/
def Named (field : Text) : Prop :=
  isReservedField field = true ∨ validateExtensionFieldName field = .ok ()

/-- The fields with one more. -/
def record (read : Fields × Fields) (entry : Text × Text) : Fields × Fields :=
  if isReservedField entry.1 then (read.1.insert entry.1 entry.2, read.2)
  else (read.1, read.2.insert entry.1 entry.2)

variable {index : Nat}

private theorem parseLine_lineOf (hw : Written entry) (hn : Named entry.1)
    (h₁ : entry.1 ∉ read.1) (h₂ : entry.1 ∉ read.2) :
    ExportDescriptor.parseLine index (lineOf entry) read = .ok (record read entry) := by
  have hne : lineOf entry ≠ [] := by
    intro heq
    cases (List.append_eq_nil_iff.mp heq).2
  have hs : (lineOf entry).splitOn '\t' = [entry.1, entry.2] := by
    rw [lineOf, List.splitOn_append_cons_self_of_not_mem hw.1.1,
      List.splitOn_eq_singleton hw.2.1]
  have hf : validateToken entry.1 entry.1 = .ok () := validateToken_ok.mpr hw.1
  have hv : validateToken entry.1 entry.2 = .ok () := validateToken_ok.mpr hw.2
  unfold ExportDescriptor.parseLine record
  rw [if_neg hne, hs]
  dsimp only
  rw [hf, hv]
  by_cases hr : isReservedField entry.1 = true
  · rw [if_pos hr, if_pos hr, if_neg h₁]
    rfl
  · rw [if_neg hr, if_neg hr, if_neg h₂, hn.resolve_left hr]
    rfl

private theorem parseLines_entries (hw : ∀ entry ∈ entries, Written entry)
    (hn : ∀ entry ∈ entries, Named entry.1) (hnd : (entries.map Prod.fst).Nodup)
    (hnw : ∀ entry ∈ entries, entry.1 ∉ read.1 ∧ entry.1 ∉ read.2) :
    ExportDescriptor.parseLines index (entries.map lineOf) read =
      .ok (entries.foldl record read) := by
  induction entries generalizing index read with
  | nil => rfl
  | cons entry entries ih =>
    obtain ⟨h₁, h₂⟩ := hnw entry mem_cons_self
    obtain ⟨ho, hr⟩ := List.nodup_cons.mp hnd
    have hl : ExportDescriptor.parseLine index (lineOf entry) read = .ok (record read entry) :=
      parseLine_lineOf (hw entry mem_cons_self) (hn entry mem_cons_self) h₁ h₂
    show (ExportDescriptor.parseLine index (lineOf entry) read >>= _) = _
    rw [hl]
    apply ih
    · exact fun other hm => hw other (mem_cons_of_mem _ hm)
    · exact fun other hm => hn other (mem_cons_of_mem _ hm)
    · exact hr
    · intro other hm
      obtain ⟨ho₁, ho₂⟩ := hnw other (mem_cons_of_mem _ hm)
      have hne : entry.1 ≠ other.1 := by
        intro heq
        exact ho (mem_map.mpr ⟨other, hm, heq.symm⟩)
      unfold record
      split
      · exact ⟨fun h => (mem_insert_eq.mp h).elim hne ho₁, ho₂⟩
      · exact ⟨ho₁, fun h => (mem_insert_eq.mp h).elim hne ho₂⟩

private theorem foldl_record_reserved (h : ∀ entry ∈ entries, isReservedField entry.1 = true) :
    entries.foldl record read = (insertAll read.1 entries, read.2) := by
  induction entries generalizing read with
  | nil => rfl
  | cons entry entries ih =>
    have hr : record read entry = (read.1.insert entry.1 entry.2, read.2) :=
      if_pos (h entry mem_cons_self)
    rw [List.foldl_cons, hr, ih fun other hm => h other (mem_cons_of_mem _ hm)]
    rfl

private theorem foldl_record_extra (h : ∀ entry ∈ entries, isReservedField entry.1 = false) :
    entries.foldl record read = (read.1, insertAll read.2 entries) := by
  induction entries generalizing read with
  | nil => rfl
  | cons entry entries ih =>
    have hr : record read entry = (read.1, read.2.insert entry.1 entry.2) := by
      apply if_neg
      rw [h entry mem_cons_self]
      exact Bool.false_ne_true
    rw [List.foldl_cons, hr, ih fun other hm => h other (mem_cons_of_mem _ hm)]
    rfl

/-! ### Values -/

private theorem AuthBoundary.parse_render {auth : AuthBoundary} (h : auth.validate = .ok ()) :
    parse auth.render = .ok auth := by
  obtain ⟨authClass, details⟩ := auth
  have hc {name : Text} (hn : ':' ∉ name) :
      splitOnce ':' (name ++ ':' :: details) = some (name, details) :=
    splitOnce_eq_some_iff.mpr ⟨rfl, hn⟩
  cases authClass with
  | none =>
    have hd : details = [] := Decidable.not_not.mp (refuse_ok.mp h)
    subst hd
    rfl
  | p9any =>
    have hr : render ⟨.p9any, details⟩ = text "p9any" ++ ':' :: details := if_neg nofun
    unfold parse
    show (validate ⟨.p9any, details⟩ >>= _) = _
    rw [h]
    rfl
  | unixPeerCred =>
    have hr : render ⟨.unixPeerCred, details⟩ = text "uds-peercred" ++ ':' :: details :=
      if_neg nofun
    unfold parse
    show (validate ⟨.unixPeerCred, details⟩ >>= _) = _
    rw [h]
    rfl

private theorem parseU32_decimal (n : UInt32) : parseU32 (decimal n.toNat) field = .ok n := by
  unfold parseU32
  rw [readDecimal_decimal n.toNat_lt]
  exact congrArg Except.ok (UInt32.ofNat_toNat)

/-- A path that can stand in a list of mount paths. -/
structure IsMountPath (path : Text) : Prop where
  absolute : path.head? = some '/'
  notRoot : path ≠ text "/"
  noComma : ',' ∉ path
  trimmed : trim path = path

private theorem validateNamespaceMountPath_ok {path : Text} :
    validateNamespaceMountPath path = .ok () ↔ path.head? = some '/' ∧ path ≠ text "/" := by
  unfold validateNamespaceMountPath
  rw [check_ok, check_ok, refuse_ok, refuse_ok, refuse_ok, Decidable.not_not]
  constructor
  · rintro ⟨-, hh, hrt⟩
    exact ⟨hh, hrt⟩
  · rintro ⟨hh, hrt⟩
    refine ⟨?_, hh, hrt⟩
    rintro rfl
    cases hh

variable {paths : List Text} {extra : List (Text × Text)}

private theorem getLast?_intercalate (h : ∀ path ∈ paths, IsMountPath path) (hne : paths ≠ []) :
    ∃ c, ([','].intercalate paths).getLast? = some c ∧ isWhitespace c = false := by
  induction paths with
  | nil => exact absurd rfl hne
  | cons path paths ih =>
    cases paths with
    | nil =>
      have hpt := h path mem_cons_self
      rw [List.intercalate_singleton]
      cases hl : path.getLast? with
      | none =>
        rw [List.getLast?_eq_none_iff] at hl
        rw [hl] at hpt
        cases hpt.absolute
      | some c =>
        refine ⟨c, rfl, getLast?_trim (t := path) ?_⟩
        rw [hpt.trimmed]
        exact hl
    | cons next paths =>
      obtain ⟨c, hl, hc⟩ := ih (fun other hm => h other (mem_cons_of_mem _ hm)) nofun
      refine ⟨c, ?_, hc⟩
      rw [List.intercalate_cons_cons, List.getLast?_append, hl]
      rfl

private theorem head?_intercalate {path : Text} (h : path.head? = some '/') :
    ([','].intercalate (path :: paths)).head? = some '/' := by
  cases paths with
  | nil =>
    rw [List.intercalate_singleton]
    exact h
  | cons next paths =>
    rw [List.intercalate_cons_cons, List.append_assoc, List.head?_append, h]
    rfl

/-- Mount paths are read back. -/
theorem parseNamespaceMountPaths_join (h : ∀ path ∈ paths, IsMountPath path)
    (hne : paths ≠ []) : parseNamespaceMountPaths (some ([','].intercalate paths)) = .ok paths := by
  have htr : trim ([','].intercalate paths) = [','].intercalate paths := by
    obtain ⟨last, hl, hsp⟩ := getLast?_intercalate h hne
    obtain ⟨path, rest, rfl⟩ := List.exists_cons_of_ne_nil hne
    have hh : ([','].intercalate (path :: rest)).head? = some '/' :=
      head?_intercalate (h path mem_cons_self).absolute
    refine trim_eq_self (fun c hc => ?_) (fun c hc => ?_)
    · cases hh.symm.trans hc
      rfl
    · cases hl.symm.trans hc
      exact hsp
  have hs : [','].intercalate paths ≠ [] := by
    obtain ⟨last, hl, -⟩ := getLast?_intercalate h hne
    intro heq
    rw [heq] at hl
    cases hl
  unfold parseNamespaceMountPaths
  dsimp only
  rw [htr, if_neg hs, List.splitOn_intercalate _ (fun path hpt => (h path hpt).noComma)
    hne]
  have hr : ∀ path ∈ paths, (do
      validateNamespaceMountPath (trim path)
      Except.ok (trim path)) = pure (f := Except Error) path := by
    intro path hpt
    obtain ⟨ha, hrt, -, ht⟩ := h path hpt
    rw [ht, validateNamespaceMountPath_ok.mpr ⟨ha, hrt⟩]
    rfl
  rw [mapM_congr hr, List.mapM_pure, List.map_id']
  rfl

/-- What is read is fit to be written, and comes from the text. -/
theorem parseNamespaceMountPaths_ok {source : Option Text}
    (h : parseNamespaceMountPaths source = .ok paths) :
    ∀ path ∈ paths, IsMountPath path ∧ ∃ value, source = some value ∧ ∀ c ∈ path, c ∈ value := by
  unfold parseNamespaceMountPaths at h
  split at h
  · cases h
    nofun
  · next value =>
    split at h
    · cases h
      nofun
    · intro path hpt
      obtain ⟨piece, hp, hr⟩ := forall₂_mem_right (mapM_ok h) hpt
      obtain ⟨hv, heq⟩ := check_ok.mp hr
      cases heq
      obtain ⟨ha, hrt⟩ := validateNamespaceMountPath_ok.mp hv
      obtain ⟨hcm, hm⟩ := mem_splitOn hp
      exact ⟨⟨ha, hrt, fun hc => hcm (mem_of_mem_trim hc), trim_trim piece⟩, value, rfl,
        fun c hc => mem_of_mem_trim (hm c (mem_of_mem_trim hc))⟩

/-! ### Valid descriptors -/

namespace ExportDescriptor

/-- What a descriptor needs to be written and read back. -/
structure Valid (d : ExportDescriptor) : Prop where
  authority : d.validateAuthorityBoundary = .ok ()
  session : ∃ s, d.sessionEndpoint = .ok s
  ownership : ∃ o, d.hostOwnership = .ok o
  extensions : ∀ entry ∈ d.extraFields.toList, checkExtension entry.1 = .ok ()
  written : ∀ entry ∈ d.reservedLines ++ d.extraFields.toList, Written entry
  paths : ∀ path ∈ d.namespaceMountPaths, IsMountPath path

/-- The text of a valid descriptor. -/
def rendered (d : ExportDescriptor) : Text :=
  unlines ((d.reservedLines ++ d.extraFields.toList).map lineOf)

private theorem forM_ok {check : Text × Text → Result Unit} :
    entries.forM check = .ok () ↔ ∀ entry ∈ entries, check entry = .ok () := by
  induction entries with
  | nil => exact ⟨fun _ => nofun, fun _ => rfl⟩
  | cons entry entries ih =>
    show (check entry >>= fun _ => entries.forM check) = .ok () ↔ _
    rw [check_ok, ih, List.forall_mem_cons]

private theorem render_ok {out : Text} : d.render = .ok out ↔
    d.validateAuthorityBoundary = .ok () ∧ (∃ s, d.sessionEndpoint = .ok s) ∧
    (∃ o, d.hostOwnership = .ok o) ∧
    (∀ entry ∈ d.extraFields.toList, checkExtension entry.1 = .ok ()) ∧
    (∀ entry ∈ d.reservedLines ++ d.extraFields.toList, Written entry) ∧ out = d.rendered := by
  unfold render rendered
  rw [check_ok, bind_ok]
  constructor
  · rintro ⟨ha, s, hs, h⟩
    obtain ⟨o, ho, h⟩ := bind_ok.mp h
    obtain ⟨hc, h⟩ := check_ok.mp h
    obtain ⟨hw, rfl⟩ := renderLines_ok.mp h
    exact ⟨ha, ⟨s, hs⟩, ⟨o, ho⟩, forM_ok.mp hc, hw, rfl⟩
  · rintro ⟨ha, ⟨s, hs⟩, ⟨o, ho⟩, hc, hw, rfl⟩
    refine ⟨ha, s, hs, bind_ok.mpr ⟨o, ho, ?_⟩⟩
    exact check_ok.mpr ⟨forM_ok.mpr hc, renderLines_ok.mpr ⟨hw, rfl⟩⟩

private theorem Valid.render_eq (h : d.Valid) : d.render = .ok d.rendered :=
  render_ok.mpr ⟨h.authority, h.session, h.ownership, h.extensions, h.written, rfl⟩

/-- The names of the reserved fields that are written, given which of the last three are. -/
def reservedNames (expires label paths : Bool) : List Text :=
  reservedFields.take 11 ++ (if expires then [text "expires_at"] else []) ++
    (if label then [text "local_root_label"] else []) ++
    (if paths then [text "namespace_mount_paths"] else [])

private theorem map_fst_reservedLines : d.reservedLines.map Prod.fst =
    reservedNames d.expiresAt.isSome d.localRootLabel.isSome !d.namespaceMountPaths.isEmpty := by
  unfold reservedLines
  cases d.expiresAt <;> cases d.localRootLabel <;> cases d.namespaceMountPaths <;> rfl

private theorem sublist_reservedNames :
    ∀ expires label paths, (reservedNames expires label paths).Sublist reservedFields := by
  decide

private theorem nodup_reservedLines : (d.reservedLines.map Prod.fst).Nodup := by
  rw [map_fst_reservedLines]
  exact (sublist_reservedNames _ _ _).nodup (by decide)

theorem isReservedField_of_mem (h : entry ∈ d.reservedLines) : isReservedField entry.1 = true := by
  have hn := List.mem_map_of_mem (f := Prod.fst) h
  rw [map_fst_reservedLines] at hn
  exact decide_eq_true ((sublist_reservedNames _ _ _).subset hn)

private theorem checkExtension_ok : checkExtension field = .ok () ↔
      validateExtensionFieldName field = .ok () ∧ isReservedField field = false := by
  rw [checkExtension, check_ok, refuse_ok, Bool.not_eq_true]

/-- The fields of a valid descriptor, as they are read. -/
theorem Valid.parseLines_eq (h : d.Valid)
    (hp : extra.Perm d.extraFields.toList) :
    parseLines 0 (lines (unlines ((d.reservedLines ++ extra).map lineOf))) (∅, ∅) =
      .ok (insertAll ∅ d.reservedLines, d.extraFields) := by
  have hex : ∀ entry ∈ extra, isReservedField entry.1 = false :=
    fun entry hm => (checkExtension_ok.mp (h.extensions entry (hp.mem_iff.mp hm))).2
  have hnd : ((d.reservedLines ++ extra).map Prod.fst).Nodup := by
    rw [List.map_append, List.nodup_append]
    refine ⟨nodup_reservedLines, (hp.map Prod.fst).nodup_iff.mpr nodup_toList, ?_⟩
    rintro a ha b hb rfl
    obtain ⟨entry, he, rfl⟩ := mem_map.mp ha
    obtain ⟨other, ho, heq⟩ := mem_map.mp hb
    have hy := isReservedField_of_mem he
    rw [← heq, hex other ho] at hy
    cases hy
  have hw : ∀ entry ∈ d.reservedLines ++ extra, Written entry :=
    fun entry hm => h.written entry ((hp.append_left d.reservedLines).mem_iff.mp hm)
  have hn : ∀ entry ∈ d.reservedLines ++ extra, Named entry.1 := by
    intro entry hm
    rcases mem_append.mp hm with hr | he
    · exact .inl (isReservedField_of_mem hr)
    · exact .inr (checkExtension_ok.mp (h.extensions entry (hp.mem_iff.mp he))).1
  rw [lines_entries hw, parseLines_entries hw hn hnd
    fun entry _ => ⟨ExtTreeMap.not_mem_empty, ExtTreeMap.not_mem_empty⟩, List.foldl_append,
    foldl_record_reserved fun entry => isReservedField_of_mem, foldl_record_extra hex,
    insertAll_perm hp]

private theorem getElem?_reservedLines (name : Text) :
    (insertAll ∅ d.reservedLines)[name]? = d.reservedLines.lookup name := by
  rw [getElem?_insertAll nodup_reservedLines, ExtTreeMap.getElem?_empty, Option.or_none]

/-- A field that every descriptor has. -/
theorem required_reservedLines {name : Text} (h : d.reservedLines.lookup name = some value) :
    required (insertAll ∅ d.reservedLines) name = .ok value := by
  unfold required
  rw [getElem?_reservedLines, h]

private theorem lookup_optional (d : ExportDescriptor) :
    d.reservedLines.lookup (text "expires_at") = d.expiresAt ∧
    d.reservedLines.lookup (text "local_root_label") = d.localRootLabel ∧
    d.reservedLines.lookup (text "namespace_mount_paths") =
      if d.namespaceMountPaths = [] then none
      else some ([','].intercalate d.namespaceMountPaths) := by
  unfold reservedLines
  cases d.expiresAt <;> cases d.localRootLabel <;> cases d.namespaceMountPaths <;>
    exact ⟨rfl, rfl, rfl⟩

private theorem Valid.ofFields_eq (h : d.Valid) :
    ofFields (insertAll ∅ d.reservedLines) d.extraFields = .ok d := by
  have ha : d.auth.validate = .ok () := (check_ok.mp h.authority).1
  have ht : TransportClass.parse d.transportClass.asStr = .ok d.transportClass := by
    cases d.transportClass <;> rfl
  have hmd : ExportMode.parse d.mode.asStr = .ok d.mode := by cases d.mode <;> rfl
  have hpr : Protocol.parse d.protocol.asStr = .ok d.protocol := by
    cases d.protocol <;> rfl
  obtain ⟨he, hl, hp⟩ := lookup_optional d
  have hmn : parseNamespaceMountPaths
      (insertAll ∅ d.reservedLines)[text "namespace_mount_paths"]? = .ok d.namespaceMountPaths := by
    rw [getElem?_reservedLines, hp]
    split
    · next hn =>
      rw [hn]
      rfl
    · next hs => exact parseNamespaceMountPaths_join h.paths hs
  unfold ofFields
  refine bind_ok.mpr ⟨EXPORT_FORMAT_V1, required_reservedLines rfl, ?_⟩
  refine check_ok.mpr ⟨refuse_ok.mpr (not_not_intro rfl), ?_⟩
  refine bind_ok.mpr ⟨d.endpointBind, required_reservedLines rfl, ?_⟩
  refine bind_ok.mpr ⟨d.aname, required_reservedLines rfl, ?_⟩
  refine bind_ok.mpr ⟨d.uname, required_reservedLines rfl, ?_⟩
  refine bind_ok.mpr ⟨d.exportedRoot, required_reservedLines rfl, ?_⟩
  refine bind_ok.mpr ⟨d.transportClass,
    bind_ok.mpr ⟨_, required_reservedLines rfl, ht⟩, ?_⟩
  refine bind_ok.mpr ⟨d.mode, bind_ok.mpr ⟨_, required_reservedLines rfl, hmd⟩, ?_⟩
  refine bind_ok.mpr ⟨d.auth,
    bind_ok.mpr ⟨_, required_reservedLines rfl, AuthBoundary.parse_render ha⟩, ?_⟩
  refine bind_ok.mpr ⟨d.pid,
    bind_ok.mpr ⟨_, required_reservedLines rfl, parseU32_decimal d.pid⟩, ?_⟩
  refine bind_ok.mpr ⟨d.protocol,
    bind_ok.mpr ⟨_, required_reservedLines rfl, hpr⟩, ?_⟩
  refine bind_ok.mpr ⟨d.msize,
    bind_ok.mpr ⟨_, required_reservedLines rfl, parseU32_decimal d.msize⟩, ?_⟩
  refine bind_ok.mpr ⟨d.namespaceMountPaths, hmn, ?_⟩
  rw [getElem?_reservedLines, getElem?_reservedLines, he, hl]

/-- A valid descriptor is read back, whatever the order of the extension fields. -/
theorem Valid.parse_eq (h : d.Valid)
    (hp : extra.Perm d.extraFields.toList) :
    parse (unlines ((d.reservedLines ++ extra).map lineOf)) = .ok d := by
  obtain ⟨s, hs⟩ := h.session
  obtain ⟨o, ho⟩ := h.ownership
  unfold parse
  refine bind_ok.mpr ⟨_, h.parseLines_eq hp, ?_⟩
  refine bind_ok.mpr ⟨d, h.ofFields_eq, ?_⟩
  refine check_ok.mpr ⟨h.authority, ?_⟩
  refine bind_ok.mpr ⟨s, hs, ?_⟩
  exact bind_ok.mpr ⟨o, ho, rfl⟩

/-! ### What is parsed -/

/-- Fields as `parse` admits them. -/
structure Sane (read : Fields × Fields) : Prop where
  reserved : ∀ (name value : Text), read.1[name]? = some value → IsToken value
  extra : ∀ (name value : Text), read.2[name]? = some value →
    Written (name, value) ∧ checkExtension name = .ok ()

private theorem Sane.parseLine (h : Sane read)
    (hl : parseLine index line read = .ok read') : Sane read' := by
  unfold ExportDescriptor.parseLine at hl
  split at hl
  · cases hl
    exact h
  · split at hl
    · next field value _ =>
      obtain ⟨hf, hl⟩ := check_ok.mp hl
      obtain ⟨hv, hl⟩ := check_ok.mp hl
      have hw : Written (field, value) :=
        ⟨validateToken_ok.mp hf, validateToken_ok.mp hv⟩
      split at hl
      · split at hl
        · cases hl
        · cases hl
          refine ⟨fun name other ho => ?_, h.extra⟩
          rw [get_insert] at ho
          split at ho
          · cases ho
            exact hw.2
          · exact h.reserved name other ho
      · next hr =>
        obtain ⟨hn, hl⟩ := check_ok.mp hl
        split at hl
        · cases hl
        · cases hl
          refine ⟨h.reserved, fun name other ho => ?_⟩
          rw [get_insert] at ho
          split at ho
          · next heq =>
            cases ho
            rw [← heq]
            exact ⟨hw, checkExtension_ok.mpr ⟨hn, Bool.eq_false_of_not_eq_true hr⟩⟩
          · exact h.extra name other ho
    · cases hl

private theorem Sane.parseLines {input : List Text} (h : Sane read)
    (hln : parseLines index input read = .ok read') : Sane read' := by
  induction input generalizing index read with
  | nil =>
    cases hln
    exact h
  | cons line input ih =>
    obtain ⟨between, hl, hr⟩ := bind_ok.mp hln
    exact ih (h.parseLine hl) hr

private theorem isToken_render {auth : AuthBoundary} (h : AuthBoundary.parse value = .ok auth)
    (hv : IsToken value) : IsToken auth.render := by
  have hd : IsToken auth.details := by
    unfold AuthBoundary.parse at h
    split at h
    · cases h
      exact ⟨nofun, nofun, nofun⟩
    · split at h
      · cases h
      · next hs =>
        obtain ⟨authClass, -, h⟩ := bind_ok.mp h
        obtain ⟨-, h⟩ := check_ok.mp h
        cases h
        obtain ⟨rfl, -⟩ := splitOnce_eq_some_iff.mp hs
        exact hv.of_subset fun c hc => List.mem_append_right _ (mem_cons_of_mem _ hc)
  unfold AuthBoundary.render
  split
  · exact ⟨by decide, by decide, by decide⟩
  · have hn : IsToken (auth.authClass.asStr ++ [':']) := by
      cases auth.authClass <;> exact ⟨by decide, by decide, by decide⟩
    rw [List.append_cons]
    exact hn.append hd

private theorem isToken_intercalate (h : ∀ path ∈ paths, IsToken path) :
    IsToken ([','].intercalate paths) := by
  induction paths with
  | nil => exact ⟨nofun, nofun, nofun⟩
  | cons path paths ih =>
    have hpt := h path mem_cons_self
    cases paths with
    | nil =>
      rw [List.intercalate_singleton]
      exact hpt
    | cons next paths =>
      rw [List.intercalate_cons_cons]
      refine IsToken.append (hpt.append ⟨by decide, by decide, by decide⟩) (ih ?_)
      exact fun other hm => h other (mem_cons_of_mem _ hm)

/-- The reserved fields can be written if the texts among them can. -/
theorem written_reservedLines (hb : IsToken d.endpointBind) (han : IsToken d.aname)
    (hu : IsToken d.uname) (hrt : IsToken d.exportedRoot) (ha : IsToken d.auth.render)
    (he : ∀ value, d.expiresAt = some value → IsToken value)
    (hl : ∀ value, d.localRootLabel = some value → IsToken value)
    (hp : ∀ path ∈ d.namespaceMountPaths, IsToken path) :
    ∀ entry ∈ d.reservedLines, Written entry := by
  have ht : IsToken d.transportClass.asStr := by
    cases d.transportClass <;> exact ⟨by decide, by decide, by decide⟩
  have hmd : IsToken d.mode.asStr := by
    cases d.mode <;> exact ⟨by decide, by decide, by decide⟩
  have hpr : IsToken d.protocol.asStr := by
    cases d.protocol <;> exact ⟨by decide, by decide, by decide⟩
  have hfr : IsToken EXPORT_FORMAT_V1 := ⟨by decide, by decide, by decide⟩
  have hn : ∀ name ∈ reservedFields, IsToken name := by
    unfold IsToken
    decide
  intro entry hm
  refine ⟨hn _ (of_decide_eq_true (isReservedField_of_mem hm)), ?_⟩
  unfold reservedLines at hm
  rcases mem_append.mp hm with hm | hmn
  · rcases mem_append.mp hm with hm | hmy
    · rcases mem_append.mp hm with hf | hmy
      · simp only [List.mem_cons, List.not_mem_nil, or_false] at hf
        rcases hf with rfl | rfl | rfl | rfl | rfl | rfl | rfl | rfl | rfl | rfl | rfl
        · exact hfr
        · exact hb
        · exact han
        · exact hu
        · exact hrt
        · exact ht
        · exact hmd
        · exact ha
        · exact isToken_decimal _
        · exact hpr
        · exact isToken_decimal _
      · obtain ⟨value, hv, rfl⟩ := Option.map_eq_some_iff.mp (Option.mem_toList.mp hmy)
        exact he value hv
    · obtain ⟨value, hv, rfl⟩ := Option.map_eq_some_iff.mp (Option.mem_toList.mp hmy)
      exact hl value hv
  · split at hmn
    · cases hmn
    · rw [List.mem_singleton.mp hmn]
      exact isToken_intercalate hp

private theorem required_ok {fields : Fields} {name : Text} (h : required fields name = .ok value) :
    fields[name]? = some value := by
  unfold required at h
  split at h
  · next hv =>
    cases h
    exact hv
  · cases h

/-- What is made of sane fields can be written. -/
theorem Sane.ofFields {fields extra : Fields} (h : Sane (fields, extra))
    (hd : ofFields fields extra = .ok d) :
    (∀ entry ∈ d.reservedLines ++ d.extraFields.toList, Written entry) ∧
    (∀ entry ∈ d.extraFields.toList, checkExtension entry.1 = .ok ()) ∧
    ∀ path ∈ d.namespaceMountPaths, IsMountPath path := by
  have ht {name value : Text} (hv : required fields name = .ok value) : IsToken value :=
    h.reserved _ _ (required_ok hv)
  unfold ExportDescriptor.ofFields at hd
  obtain ⟨format, -, hd⟩ := bind_ok.mp hd
  obtain ⟨-, hd⟩ := check_ok.mp hd
  obtain ⟨endpointBind, hb, hd⟩ := bind_ok.mp hd
  obtain ⟨aname, han, hd⟩ := bind_ok.mp hd
  obtain ⟨uname, hu, hd⟩ := bind_ok.mp hd
  obtain ⟨exportedRoot, hrt, hd⟩ := bind_ok.mp hd
  obtain ⟨transportClass, -, hd⟩ := bind_ok.mp hd
  obtain ⟨mode, -, hd⟩ := bind_ok.mp hd
  obtain ⟨auth, ha, hd⟩ := bind_ok.mp hd
  obtain ⟨pid, -, hd⟩ := bind_ok.mp hd
  obtain ⟨protocol, -, hd⟩ := bind_ok.mp hd
  obtain ⟨msize, -, hd⟩ := bind_ok.mp hd
  obtain ⟨paths, hp, hd⟩ := bind_ok.mp hd
  cases hd
  obtain ⟨authValue, hat, ha⟩ := bind_ok.mp ha
  have hmn := parseNamespaceMountPaths_ok hp
  have hex : ∀ entry ∈ extra.toList, Written entry ∧ checkExtension entry.1 = .ok () :=
    fun entry hm => h.extra _ _ (ExtTreeMap.mem_toList_iff_getElem?_eq_some.mp hm)
  refine ⟨fun entry hm => ?_, fun entry hm => (hex entry hm).2, fun path hm => (hmn path hm).1⟩
  rcases mem_append.mp hm with hr | ho
  · refine written_reservedLines (ht hb) (ht han) (ht hu) (ht hrt)
      (isToken_render ha (ht hat)) (fun value => h.reserved _ value)
      (fun value => h.reserved _ value) (fun path hpt => ?_) entry hr
    obtain ⟨-, value, hv, hs⟩ := hmn path hpt
    exact (h.reserved _ _ hv).of_subset hs
  · exact (hex entry ho).1

private theorem valid_of_parse {input : Text} (h : parse input = .ok d) : d.Valid := by
  obtain ⟨⟨fields, extra⟩, hln, h⟩ := bind_ok.mp h
  obtain ⟨d', hd, h⟩ := bind_ok.mp h
  obtain ⟨ha, h⟩ := check_ok.mp h
  obtain ⟨s, hs, h⟩ := bind_ok.mp h
  obtain ⟨o, ho, h⟩ := bind_ok.mp h
  cases h
  have hem : Sane (∅, ∅) := by
    constructor
    all_goals
      intro name value hv
      rw [ExtTreeMap.getElem?_empty] at hv
      cases hv
  obtain ⟨hw, he, hp⟩ := (hem.parseLines hln).ofFields hd
  exact ⟨ha, ⟨s, hs⟩, ⟨o, ho⟩, he, hw, hp⟩

end ExportDescriptor

/-- The text of a descriptor is read back as this descriptor exactly if its mount paths are sound,
and whatever is read can be written and read again. -/
theorem descriptor_round_trips (d : ExportDescriptor) :
    (∀ out, d.render = .ok out →
      (ExportDescriptor.parse out = .ok d ↔ ∀ path ∈ d.namespaceMountPaths, IsMountPath path)) ∧
    ∀ input, ExportDescriptor.parse input = .ok d →
      ∃ out, d.render = .ok out ∧ ExportDescriptor.parse out = .ok d := by
  constructor
  · intro out hr
    obtain ⟨ha, hs, ho, he, hw, rfl⟩ := ExportDescriptor.render_ok.mp hr
    constructor
    · intro hp
      exact (ExportDescriptor.valid_of_parse hp).paths
    · intro hp
      have hv : d.Valid := ⟨ha, hs, ho, he, hw, hp⟩
      exact hv.parse_eq (.refl _)
  · intro input hpr
    have hv := ExportDescriptor.valid_of_parse hpr
    exact ⟨d.rendered, hv.render_eq, hv.parse_eq (.refl _)⟩

theorem descriptor_round_trips_mounted : ∃ d out, d.render = .ok out ∧
    ExportDescriptor.parse out = .ok d ∧
    d.namespaceMountPaths = [text "/sensors", text "/markets"] := by
  let d : ExportDescriptor := { plainDescriptor (text "127.0.0.1:1234") with
    namespaceMountPaths := [text "/sensors", text "/markets"] }
  have hp : ∀ path ∈ d.namespaceMountPaths, IsMountPath path := by
    intro path hm
    rcases List.mem_cons.mp hm with rfl | hm
    · exact ⟨rfl, by decide, by decide, by decide⟩
    · rw [List.mem_singleton.mp hm]
      exact ⟨rfl, by decide, by decide, by decide⟩
  have hok : d.render.toOption.isSome = true := by decide +kernel
  obtain ⟨out, ho⟩ := Option.isSome_iff_exists.mp hok
  have hr := ok_of_toOption ho
  exact ⟨d, out, hr, ((descriptor_round_trips d).1 out hr).mpr hp, rfl⟩

/-- A comma in a mount path makes two paths of it. -/
theorem mount_path_torn_apart : ∃ d out d', ExportDescriptor.render d = .ok out ∧
    ExportDescriptor.parse out = .ok d' ∧ d.namespaceMountPaths = [text "/a,/b"] ∧
    d'.namespaceMountPaths = [text "/a", text "/b"] := by
  let d : ExportDescriptor := { plainDescriptor (text "127.0.0.1:1234") with
    namespaceMountPaths := [text "/a,/b"] }
  have hr : (d.render.toOption.bind fun out =>
      (ExportDescriptor.parse out).toOption).map (·.namespaceMountPaths) =
      some [text "/a", text "/b"] := by decide +kernel
  obtain ⟨d', hd', hp⟩ := Option.map_eq_some_iff.mp hr
  obtain ⟨out, ho, hpr⟩ := Option.bind_eq_some_iff.mp hd'
  exact ⟨d, out, d', ok_of_toOption ho, ok_of_toOption hpr, rfl, hp⟩

end R9P.Descriptor
