import CoinLedger.Workspace

/-! # Bytes of path names

A byte below 128 is a character of its own, so a slash in the bytes of a path is a slash in the
path. Between two slashes stands a part or what is passed over (`CoinLedger.PathName.pieces_bytes`).
-/

namespace CoinLedger

namespace FileName

/-- A lone surrogate spells one byte from 128 on. -/
theorem surrogate_bytes {unit : Nat} {bytes : ByteString}
    (spelled : pointBytes? (.surrogate unit) = some bytes) :
    ∃ byte : UInt8, bytes = [byte] ∧ 128 ≤ byte.toNat := by
  rw [pointBytes?] at spelled
  split at spelled
  · cases spelled
    refine ⟨_, rfl, ?_⟩
    rw [UInt8.toNat_ofNat']
    omega
  · cases spelled

/-- A code point spells some byte. -/
theorem pointBytes?_ne_nil {point : Text.CodePoint} {bytes : ByteString}
    (spelled : pointBytes? point = some bytes) : bytes ≠ [] := by
  cases point with
  | character c =>
      cases spelled
      intro empty
      have size := congrArg List.length empty
      rw [String.length_utf8EncodeChar] at size
      exact Nat.ne_of_gt c.utf8Size_pos size
  | surrogate unit =>
      obtain ⟨byte, rfl, _⟩ := surrogate_bytes spelled
      exact List.cons_ne_nil byte []

/-- A byte below 128 is a character of its own. -/
theorem eq_character_of_mem {point : Text.CodePoint} {bytes : ByteString} {byte : UInt8}
    (spelled : pointBytes? point = some bytes) (member : byte ∈ bytes) (small : byte.toNat < 128) :
    point = .character (Char.ofNat byte.toNat) := by
  cases point with
  | character c =>
      cases spelled
      unfold String.utf8EncodeChar at member
      dsimp only at member
      split at member
      · rename_i low
        rw [List.mem_singleton.mp member, UInt8.toNat_ofNat', Nat.mod_eq_of_lt (by omega)]
        exact congrArg Text.CodePoint.character (Char.ofNat_toNat c).symm
      · -- Every byte of a longer encoding has its highest bit set.
        exfalso
        split at member
        · simp only [List.mem_cons, List.not_mem_nil, or_false] at member
          rcases member with rfl | rfl <;> (rw [UInt8.toNat_ofNat'] at small; omega)
        · split at member
          · simp only [List.mem_cons, List.not_mem_nil, or_false] at member
            rcases member with rfl | rfl | rfl <;> (rw [UInt8.toNat_ofNat'] at small; omega)
          · simp only [List.mem_cons, List.not_mem_nil, or_false] at member
            rcases member with rfl | rfl | rfl | rfl <;>
              (rw [UInt8.toNat_ofNat'] at small; omega)
  | surrogate unit =>
      obtain ⟨_, rfl, large⟩ := surrogate_bytes spelled
      rw [List.mem_singleton.mp member] at small
      omega

/-- The bytes of a code point come before those of the others. -/
theorem ofPoints?_cons (point : Text.CodePoint) (points : List Text.CodePoint) :
    ofPoints? (point :: points) =
      (pointBytes? point).bind fun bytes => (ofPoints? points).map (bytes ++ ·) := by
  rw [ofPoints?, ofPoints?, List.mapM_cons]
  cases pointBytes? point with
  | none => rfl
  | some bytes => cases points.mapM pointBytes? <;> rfl

/-- The bytes of code points come one after another. -/
theorem ofPoints?_append (first second : List Text.CodePoint) :
    ofPoints? (first ++ second) =
      (ofPoints? first).bind fun bytes => (ofPoints? second).map (bytes ++ ·) := by
  induction first with
  | nil =>
      change ofPoints? second = (ofPoints? second).map ([] ++ ·)
      simp
  | cons point points inductive_step =>
      rw [List.cons_append, ofPoints?_cons, ofPoints?_cons, inductive_step]
      cases pointBytes? point with
      | none => rfl
      | some bytes =>
          cases ofPoints? points with
          | none => rfl
          | some others => cases ofPoints? second <;> simp

/-- Only no code points spell no bytes. -/
theorem eq_nil_of_ofPoints? {points : List Text.CodePoint}
    (spelled : ofPoints? points = some []) : points = [] := by
  cases points with
  | nil => rfl
  | cons point points =>
      rw [ofPoints?_cons] at spelled
      obtain ⟨bytes, first, rest⟩ := Option.bind_eq_some_iff.mp spelled
      obtain ⟨others, _, joined⟩ := Option.map_eq_some_iff.mp rest
      exact absurd (List.append_eq_nil_iff.mp joined).1 (pointBytes?_ne_nil first)

/-- A name in which a character below 128 does not occur has no such byte. -/
theorem not_mem_of_ofPoints? {points : List Text.CodePoint} {name : FileName} {byte : UInt8}
    (spelled : ofPoints? points = some name) (small : byte.toNat < 128)
    (absent : .character (Char.ofNat byte.toNat) ∉ points) : byte ∉ name := by
  induction points generalizing name with
  | nil =>
      cases spelled
      exact List.not_mem_nil
  | cons point points inductive_step =>
      rw [ofPoints?_cons] at spelled
      obtain ⟨bytes, first, rest⟩ := Option.bind_eq_some_iff.mp spelled
      obtain ⟨others, later, rfl⟩ := Option.map_eq_some_iff.mp rest
      rw [List.mem_cons, not_or] at absent
      rw [List.mem_append, not_or]
      exact ⟨fun member => absent.1 (eq_character_of_mem first member small).symm,
        inductive_step later absent.2⟩

end FileName

namespace PathPart

variable {part : PathPart} {name : FileName}

/-- The file name of a part is what its name spells. -/
theorem fileName_eq (spelled : FileName.ofPoints? part.name = some name) :
    part.fileName = name := by
  rw [fileName, spelled]
  rfl

theorem slashByte_not_mem (spelled : FileName.ofPoints? part.name = some name) :
    Workspace.slashByte ∉ name :=
  FileName.not_mem_of_ofPoints? spelled (by decide) part.slash_not_mem

/-- A part is not passed over. -/
theorem isIdle_eq_false (spelled : FileName.ofPoints? part.name = some name) :
    Workspace.isIdle name = false := by
  obtain ⟨point, points, written⟩ := List.exists_cons_of_ne_nil part.name_ne_nil
  rw [written, FileName.ofPoints?_cons] at spelled
  obtain ⟨bytes, first, rest⟩ := Option.bind_eq_some_iff.mp spelled
  obtain ⟨others, later, rfl⟩ := Option.map_eq_some_iff.mp rest
  have nonempty := FileName.pointBytes?_ne_nil first
  rw [Workspace.isIdle, Bool.or_eq_false_iff]
  -- A part is not empty, and if its only byte were that of a dot it would be a dot.
  refine ⟨by simp [nonempty], decide_eq_false fun single => part.name_ne_dot ?_⟩
  have dot : FileName.ofText "." = [46] := by decide +kernel
  rw [dot] at single
  rcases List.append_eq_singleton_iff.mp single with ⟨empty, _⟩ | ⟨rfl, rfl⟩
  · exact absurd empty nonempty
  · rw [written, FileName.eq_nil_of_ofPoints? later,
      FileName.eq_character_of_mem first List.mem_cons_self (by decide)]
    rfl

end PathPart

namespace PathName

/-- All parts of a path have bytes. -/
theorem exists_parts_bytes {parts : List PathPart} {bytes : FileName}
    (spelled : FileName.ofPoints? (joinParts parts) = some bytes) :
    (∀ part ∈ parts, FileName.ofPoints? part.name = some part.fileName) ∧
      (Text.pieces Workspace.slashByte bytes).filter (fun piece => !Workspace.isIdle piece) =
        parts.map PathPart.fileName := by
  induction parts generalizing bytes with
  | nil =>
      cases spelled
      exact ⟨(fun _ member => nomatch member), rfl⟩
  | cons part parts inductive_step =>
      cases parts with
      | nil =>
          have named := PathPart.fileName_eq spelled
          have single := Text.pieces_of_not_mem _ _ (PathPart.slashByte_not_mem spelled)
          refine ⟨List.forall_mem_singleton.mpr (named.symm ▸ spelled), ?_⟩
          rw [single, List.map_cons, named]
          simp [PathPart.isIdle_eq_false spelled]
      | cons next others =>
          change FileName.ofPoints? (part.name ++ slash :: joinParts (next :: others)) = _
            at spelled
          rw [FileName.ofPoints?_append] at spelled
          obtain ⟨first, here, rest⟩ := Option.bind_eq_some_iff.mp spelled
          obtain ⟨later, there, rfl⟩ := Option.map_eq_some_iff.mp rest
          rw [FileName.ofPoints?_cons] at there
          obtain ⟨tail, remaining, rfl⟩ := Option.map_eq_some_iff.mp there
          obtain ⟨spelledOthers, found⟩ := inductive_step remaining
          have named := PathPart.fileName_eq here
          refine ⟨List.forall_mem_cons.mpr ⟨named.symm ▸ here, spelledOthers⟩, ?_⟩
          -- The first part has no slash in it, so its piece ends at the slash that joins the
          -- others.
          have cut :=
            Text.pieces_append Workspace.slashByte first tail (PathPart.slashByte_not_mem here)
          change
            (Text.pieces Workspace.slashByte (first ++ Workspace.slashByte :: tail)).filter _ = _
          rw [cut, List.filter_cons, PathPart.isIdle_eq_false here, found, ← named]
          rfl

/-- A slash in front spells a slash in front. -/
theorem ofPoints?_slash {points : List Text.CodePoint} {bytes : FileName}
    (spelled : FileName.ofPoints? (slash :: points) = some bytes) :
    ∃ tail, FileName.ofPoints? points = some tail ∧ bytes = Workspace.slashByte :: tail := by
  rw [FileName.ofPoints?_cons] at spelled
  obtain ⟨tail, rest, rfl⟩ := Option.map_eq_some_iff.mp spelled
  exact ⟨tail, rest, rfl⟩

/-- Parts that are joined do not begin with a slash. -/
theorem head?_ne_slashByte {parts : List PathPart} {bytes : FileName}
    (spelled : FileName.ofPoints? (joinParts parts) = some bytes) :
    bytes.head? ≠ some Workspace.slashByte := by
  cases parts with
  | nil =>
      cases spelled
      exact fun same => nomatch same
  | cons part parts =>
      obtain ⟨rest, joined⟩ : ∃ rest, joinParts (part :: parts) = part.name ++ rest := by
        cases parts with
        | nil => exact ⟨[], (List.append_nil _).symm⟩
        | cons next others => exact ⟨_, rfl⟩
      rw [joined, FileName.ofPoints?_append] at spelled
      obtain ⟨first, here, later⟩ := Option.bind_eq_some_iff.mp spelled
      obtain ⟨tail, _, rfl⟩ := Option.map_eq_some_iff.mp later
      obtain ⟨byte, others, rfl⟩ := List.exists_cons_of_ne_nil fun empty =>
        part.name_ne_nil (FileName.eq_nil_of_ofPoints? (empty ▸ here))
      intro same
      exact PathPart.slashByte_not_mem here (Option.some.inj same ▸ List.mem_cons_self)

/-- A slash in front adds nothing but what is passed over. -/
theorem filter_pieces_slash (tail : FileName) :
    (Text.pieces Workspace.slashByte (Workspace.slashByte :: tail)).filter
        (fun piece => !Workspace.isIdle piece) =
      (Text.pieces Workspace.slashByte tail).filter fun piece => !Workspace.isIdle piece := by
  rw [Text.pieces, if_pos rfl]
  rfl

/-- **A path is looked up by its parts.** What is between two slashes is a part or stands for
nothing. -/
theorem pieces_bytes {path : PathName} {bytes : FileName} (spelled : path.bytes? = some bytes) :
    (∀ part ∈ path.parts, FileName.ofPoints? part.name = some part.fileName) ∧
      (Text.pieces Workspace.slashByte bytes).filter (fun piece => !Workspace.isIdle piece) =
        path.parts.map PathPart.fileName ∧
      decide (bytes.head? = some Workspace.slashByte) = decide (path.start ≠ .here) := by
  obtain ⟨start, parts⟩ := path
  cases start with
  | here =>
      cases parts with
      | nil =>
          have dot : bytes = [46] := (Option.some.inj spelled).symm
          subst dot
          exact ⟨(fun _ member => nomatch member), by decide +kernel, by decide⟩
      | cons part parts =>
          obtain ⟨named, found⟩ := exists_parts_bytes spelled
          refine ⟨named, found, decide_eq_decide.mpr ⟨fun same => ?_, fun away => ?_⟩⟩
          · exact absurd same (head?_ne_slashByte spelled)
          · exact absurd rfl away
  | root =>
      obtain ⟨tail, rest, rfl⟩ := ofPoints?_slash spelled
      obtain ⟨named, found⟩ := exists_parts_bytes rest
      exact ⟨named, (filter_pieces_slash tail).trans found, rfl⟩
  | secondRoot =>
      obtain ⟨after, rest, rfl⟩ := ofPoints?_slash spelled
      obtain ⟨tail, last, rfl⟩ := ofPoints?_slash rest
      obtain ⟨named, found⟩ := exists_parts_bytes last
      refine ⟨named, ?_, rfl⟩
      rw [filter_pieces_slash, filter_pieces_slash, found]

/-- A file in a directory has the file names of the directory and its own. -/
theorem map_fileName_file (directory : PathName) {name : String} {part : PathPart}
    (named : PathPart.ofName? (Text.CodePoint.ofText name) = some part) :
    (directory.file name).parts.map PathPart.fileName =
      directory.parts.map PathPart.fileName ++ [part.fileName] := by
  rw [file, named]
  exact List.map_append

end PathName

end CoinLedger
