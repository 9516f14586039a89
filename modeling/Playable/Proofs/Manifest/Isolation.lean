import Playable.Manifest.Variant
import Playable.Proofs.Sequence
import Playable.Proofs.Text.Cut
import Playable.Proofs.Text.Line

/-!
# Variants beside each other

A playlist that consists of blocks, each a line with attributes and a line with a place, has
the streams of its blocks one by one, in order, and a block that cannot be read leaves out
nothing but itself. One kind of block gives up the whole playlist: its attributes are read, but
its place cannot be resolved against the place of the playlist.
-/

namespace Playable.Manifest

open Pattern Record

/-- The two lines of a variant, each with the end of its line. -/
structure Block where
  /-- What stands behind the tag in the line with the attributes. -/
  info : Text
  /-- What ends the line with the attributes. -/
  infoEnd : Text
  /-- The place. -/
  place : Text
  /-- What ends the line with the place. -/
  placeEnd : Text
  /-- No line ends inside the attributes. -/
  info_line : ∀ c ∈ info, Text.endsLine c = false
  /-- The attributes end with their line. -/
  infoEnd_isLineEnd : Text.IsLineEnd infoEnd
  /-- No line ends inside the place. -/
  place_line : ∀ c ∈ place, Text.endsLine c = false
  /-- The place is not empty. -/
  place_ne_nil : place ≠ []
  /-- The line with the place is neither a comment nor a tag. -/
  place_head : place.head? ≠ some '#'
  /-- There are no blanks around the place. -/
  place_bare : Text.strip place = place
  /-- The place ends with its line. -/
  placeEnd_isLineEnd : Text.IsLineEnd placeEnd

namespace Block

/-- The line with the attributes. -/
def line (b : Block) : Text :=
  variantTag ++ b.info

/-- The two lines of a block, the second one without its end. -/
def toText (b : Block) : Text :=
  b.line ++ b.infoEnd ++ b.place

/-- The variant of a block, if its attributes can be read. -/
def variant? (base : Option Text) (b : Block) : Except Url.UrlError (Option Variant) :=
  match readAttributes? (Text.strip b.line) with
  | none => .ok none
  | some variant => (Manifest.place base b.place).map fun url =>
    some (Register.set variant "url".toList url)

/-- The attributes of a block are read, but its place cannot be resolved. -/
def IsRefused (base : Option Text) (b : Block) : Prop :=
  (readAttributes? (Text.strip b.line)).isSome ∧ ∃ e, Manifest.place base b.place = .error e

end Block

/-- The lines of several blocks; the last line has no end. -/
def playlistText : List Block → Text
  | [] => []
  | [b] => b.toText
  | b :: more => b.toText ++ b.placeEnd ++ playlistText more

/-- One of the numbers of a variant cannot be read: that of the encoding, which its place must
hold, or that of an attribute. -/
def IsBroken (variant : Variant) : Prop :=
  let value (name : String) := Register.get? variant name.toList
  (∀ m, itagShape.find? ((value "url").getD []) = some m →
    ∃ e, readInteger (m.capture "itag") = .error e) ∨
  (∃ t e, value "resolution" = some t ∧ readResolution t = .error e) ∨
  (∃ t e, value "bandwidth" = some t ∧ readInteger t = .error e) ∨
  ∃ t e, value "frame_rate" = some t ∧ readDecimal t = .error e

/-- What a block delivers when it stands alone: one stream, unless its attributes or one of the
numbers cannot be read. -/
structure Delivers (base : Option Text) (b : Block) (part : List Stream) : Prop where
  /-- These are the streams of the block alone. -/
  alone : streams b.toText base = .ok part
  /-- There is at most one stream. -/
  length_le : part.length ≤ 1
  /-- There is no stream exactly if there is no variant, or a broken one. -/
  eq_nil_iff : part = [] ↔
    ∀ variant, b.variant? base = .ok (some variant) → IsBroken variant

variable {base : Option Text} {b : Block} {blocks : List Block} {lines more : List Text}
  {line uri : Text} {variant : Variant}

/-! ## The lines of blocks -/

/-- What marks a line with attributes begins with a number sign. -/
theorem variantTag_eq : variantTag = '#' :: "EXT-X-STREAM-INF".toList :=
  rfl

/-- The text of blocks is that of the first one, and what stands behind it. -/
theorem playlistText_cons (b : Block) (more : List Block) :
    ∃ rest, playlistText (b :: more) = b.line ++ b.infoEnd ++ (b.place ++ rest) := by
  cases more with
  | nil => exact ⟨[], by simp [playlistText, Block.toText]⟩
  | cons next more =>
    exact ⟨b.placeEnd ++ playlistText (next :: more), by simp [playlistText, Block.toText]⟩

/-- Blocks begin with a number sign. -/
theorem playlistText_head? (b : Block) (more : List Block) :
    (playlistText (b :: more)).head? = some '#' := by
  obtain ⟨rest, hrest⟩ := playlistText_cons b more
  rw [hrest, Block.line, variantTag_eq]
  rfl

/-- The text of blocks is not empty. -/
theorem playlistText_ne_nil (b : Block) (more : List Block) : playlistText (b :: more) ≠ [] :=
  fun h => by
    have hhead := playlistText_head? b more
    rw [h] at hhead
    cases hhead

/-- Blocks end with a place, so with no blank. -/
theorem playlistText_getLast? (blocks : List Block) :
    (playlistText blocks).getLast?.any Text.isBlank = false := by
  induction blocks with
  | nil => rfl
  | cons b blocks ih =>
    cases blocks with
    | nil =>
      have hlast : (b.place).getLast?.any Text.isBlank = false :=
        Text.getLast?_of_trim_eq_self b.place_bare
      rwa [playlistText, Block.toText, List.getLast?_append_of_ne_nil _ b.place_ne_nil]
    | cons next blocks =>
      rwa [playlistText, List.getLast?_append_of_ne_nil _ (playlistText_ne_nil next blocks)]
      exact nofun

/-- Around blocks there are no blanks, and those behind them do not count. -/
theorem strip_playlistText (blocks : List Block) {rest : Text}
    (hrest : ∀ c ∈ rest, Text.isBlank c = true) :
    Text.strip (playlistText blocks ++ rest) = playlistText blocks := by
  refine Text.trim_append ?_ (playlistText_getLast? blocks) hrest
  cases blocks with
  | nil => rfl
  | cons b more =>
    rw [playlistText_head? b more]
    rfl

/-- No line ends inside a line with attributes. -/
theorem Block.line_line (b : Block) : ∀ c ∈ b.line, Text.endsLine c = false := by
  intro c hc
  rcases List.mem_append.mp hc with hc | hc
  · exact Text.forall_mem_of_all (p := (Text.endsLine · = false)) (by decide) c hc
  · exact b.info_line c hc

/-- A place does not begin with the end of a line. -/
theorem Block.place_head?_append (b : Block) (rest : Text) :
    (b.place ++ rest).head? ≠ some '\n' := by
  obtain ⟨c, place, hcons⟩ := List.exists_cons_of_ne_nil b.place_ne_nil
  have hc : Text.endsLine c = false := b.place_line c (by simp [hcons])
  rw [hcons]
  rintro ⟨⟩
  exact absurd hc (by decide)

/-- Two lines for each block. -/
theorem lines_playlistText (blocks : List Block) :
    Text.lines (playlistText blocks) = blocks.flatMap fun b => [b.line, b.place] := by
  induction blocks with
  | nil => rfl
  | cons b blocks ih =>
    cases blocks with
    | nil =>
      have hplace := b.place_head?_append []
      rw [List.append_nil] at hplace
      rw [playlistText, Block.toText, Text.lines_line b.line_line b.infoEnd_isLineEnd hplace,
        Text.lines_last b.place_ne_nil b.place_line]
      rfl
    | cons next blocks =>
      have htext : playlistText (b :: next :: blocks) =
          b.line ++ b.infoEnd ++ (b.place ++ b.placeEnd ++ playlistText (next :: blocks)) := by
        simp [playlistText, Block.toText]
      have hnext : (playlistText (next :: blocks)).head? ≠ some '\n' := by
        rw [playlistText_head?]
        decide
      rw [htext, Text.lines_line b.line_line b.infoEnd_isLineEnd
          (by rw [List.append_assoc]; exact b.place_head?_append _),
        Text.lines_line b.place_line b.placeEnd_isLineEnd hnext, ih]
      rfl

/-! ## The variants of blocks -/

/-- A line that is no line with attributes is passed over. -/
theorem variantsOf_of_no_attributes (h : readAttributes? line = none) (more : List Text) :
    variantsOf base (line :: more) = variantsOf base more := by
  cases more with
  | nil => rfl
  | cons next more =>
    rw [variantsOf]
    simp only [h]

/-- A line that does not begin with a number sign is no line with attributes. -/
theorem variantsOf_place (huri : uri.head? ≠ some '#') (more : List Text) :
    variantsOf base (uri :: more) = variantsOf base more := by
  refine variantsOf_of_no_attributes ?_ more
  cases uri with
  | nil => rfl
  | cons c uri =>
    have hc : c ≠ '#' := by simpa using huri
    have hprefix : (variantTag ++ [':']).isPrefixOf (c :: uri) = false := by
      simp [variantTag_eq, List.isPrefixOf, hc.symm]
    rw [readAttributes?, Text.after?, hprefix]
    rfl

/-- A block adds its variant, if it has one. -/
theorem variantsOf_block (b : Block) (more : List Text) :
    variantsOf base (Text.strip b.line :: Text.strip b.place :: more) =
      (b.variant? base).bind fun variant =>
        (variantsOf base more).map (variant.toList ++ ·) := by
  have hplace : ¬ (b.place = [] ∨ b.place.head? = some '#') :=
    not_or.mpr ⟨b.place_ne_nil, b.place_head⟩
  rw [b.place_bare, variantsOf, Block.variant?]
  cases readAttributes? (Text.strip b.line) with
  | none =>
    simp only [variantsOf_place b.place_head]
    cases variantsOf base more <;> rfl
  | some variant =>
    simp only [if_neg hplace, variantsOf_place b.place_head]
    cases Manifest.place base b.place with
    | error e => rfl
    | ok url => cases variantsOf base more <;> rfl

/-- The variants of the lines of blocks are those of the blocks. -/
theorem variantsOf_blocks (blocks : List Block) :
    variantsOf base ((blocks.flatMap fun b => [b.line, b.place]).map Text.strip) =
      (blocks.mapM (Block.variant? base)).map fun variants => variants.filterMap id := by
  induction blocks with
  | nil => rfl
  | cons b blocks ih =>
    have hlines : ((b :: blocks).flatMap fun b => [b.line, b.place]).map Text.strip =
        Text.strip b.line :: Text.strip b.place ::
          (blocks.flatMap fun b => [b.line, b.place]).map Text.strip := rfl
    rw [hlines, variantsOf_block, ih, List.mapM_cons]
    cases b.variant? base with
    | error e => rfl
    | ok variant =>
      cases blocks.mapM (Block.variant? base) with
      | error e => rfl
      | ok variants => cases variant <;> rfl

/-- A block has a variant or none, unless its place cannot be resolved. -/
theorem Block.variant?_fails_iff (b : Block) :
    (∃ e, b.variant? base = .error e) ↔ b.IsRefused base := by
  rw [Block.variant?, Block.IsRefused]
  cases readAttributes? (Text.strip b.line) with
  | none => simp
  | some variant => cases Manifest.place base b.place <;> simp [Except.map]

/-! ## The streams of blocks -/

/-- The stream of a variant, if there is a variant and it becomes a stream. -/
def streamList (variant : Option Variant) : List Stream :=
  (variant.bind fun v => (streamOf v).toOption).toList

/-- The streams of blocks are those of their variants, in order. -/
theorem streams_playlistText (blocks : List Block) {rest : Text}
    (hrest : ∀ c ∈ rest, Text.isBlank c = true) :
    streams (playlistText blocks ++ rest) base =
      (blocks.mapM fun b : Block => (b.variant? base).map streamList).map List.flatten := by
  have hstreams (variants : List (Option Variant)) :
      (variants.filterMap id).filterMap (fun v => (streamOf v).toOption) =
        (variants.map streamList).flatten := by
    rw [List.filterMap_filterMap, List.filterMap_eq_flatMap_toList]
    rfl
  rw [streams, variants, strip_playlistText blocks hrest, lines_playlistText, variantsOf_blocks,
    mapM_map_result]
  cases blocks.mapM (Block.variant? base) with
  | error e => rfl
  | ok variants => exact congrArg Except.ok (hstreams variants)

/-- A single line has no streams. -/
theorem streams_line {rest : Text} (hne : line ≠ []) (hbare : Text.strip line = line)
    (hline : ∀ c ∈ line, Text.endsLine c = false) (hrest : ∀ c ∈ rest, Text.isBlank c = true) :
    streams (line ++ rest) base = .ok [] := by
  have hstrip : Text.strip (line ++ rest) = line := Text.trim_append
    (Text.head?_of_trim_eq_self hbare) (Text.getLast?_of_trim_eq_self hbare) hrest
  rw [streams, variants, hstrip, Text.lines_last hne hline]
  rfl

/-- A line in front of the blocks that is no line with attributes is passed over. -/
theorem streams_behind_line {ending rest : Text} (hne : line ≠ [])
    (hbare : Text.strip line = line) (hline : ∀ c ∈ line, Text.endsLine c = false)
    (hnone : readAttributes? line = none) (hending : Text.IsLineEnd ending) (b : Block)
    (blocks : List Block) (hrest : ∀ c ∈ rest, Text.isBlank c = true) :
    streams (line ++ ending ++ playlistText (b :: blocks) ++ rest) base =
      streams (playlistText (b :: blocks) ++ rest) base := by
  have hplaylist : (playlistText (b :: blocks)).head? ≠ some '\n' := by
    rw [playlistText_head?]
    decide
  have hstrip : Text.strip (line ++ ending ++ playlistText (b :: blocks) ++ rest) =
      line ++ ending ++ playlistText (b :: blocks) := by
    refine Text.trim_append ?_ ?_ hrest
    · rw [List.append_assoc, List.head?_append_of_ne_nil _ hne]
      exact Text.head?_of_trim_eq_self hbare
    · rw [List.getLast?_append_of_ne_nil _ (playlistText_ne_nil b blocks)]
      exact playlistText_getLast? _
  rw [streams, streams, variants, variants, hstrip, strip_playlistText _ hrest,
    Text.lines_line hline hending hplaylist, List.map_cons, hbare,
    variantsOf_of_no_attributes hnone]

/-- The streams of a block alone are those of its variant. -/
theorem streams_block (b : Block) :
    streams b.toText base = (b.variant? base).map streamList := by
  have halone : streams (playlistText [b] ++ []) base = _ :=
    streams_playlistText [b] fun _ h => absurd h List.not_mem_nil
  rw [List.append_nil, playlistText] at halone
  rw [halone, List.mapM_cons]
  cases b.variant? base with
  | error e => rfl
  | ok variant => exact congrArg Except.ok (List.append_nil _)

/-- Reading a number that may be missing fails if it is given and cannot be read. -/
theorem readOptional_fails_iff {α : Type} {read : Text → Except VariantError α}
    {given : Option Text} :
    (∃ e, readOptional read given = .error e) ↔ ∃ t e, given = some t ∧ read t = .error e := by
  cases given with
  | none => simp [readOptional]
  | some t =>
    rw [readOptional]
    cases hread : read t <;> simp [hread, bind, Except.bind, pure, Except.pure]

/-- A variant becomes no stream if one of its numbers cannot be read. -/
theorem streamOf_fails_iff : (∃ e, streamOf variant = .error e) ↔ IsBroken variant := by
  simp only [IsBroken, ← readOptional_fails_iff]
  rw [streamOf]
  cases hfind : itagShape.find? ((Register.get? variant "url".toList).getD []) with
  | none => simp
  | some m =>
    simp only [Option.some.injEq, forall_eq']
    -- The numbers are read one after the other; the first one that cannot be read decides.
    cases readOptional readResolution (Register.get? variant "resolution".toList) with
    | error e => simp [bind, Except.bind]
    | ok resolution =>
      cases readInteger (m.capture "itag") with
      | error e => simp [bind, Except.bind]
      | ok itag =>
        cases readOptional readInteger (Register.get? variant "bandwidth".toList) with
        | error e => simp [bind, Except.bind]
        | ok bitrate =>
          cases readOptional readDecimal (Register.get? variant "frame_rate".toList) with
          | error e => simp [bind, Except.bind]
          | ok fps => simp [bind, Except.bind, pure, Except.pure]

/-- There is no stream of a variant exactly if it is broken. -/
theorem streamList_some_eq_nil_iff : streamList (some variant) = [] ↔ IsBroken variant := by
  rw [← streamOf_fails_iff, streamList, Option.bind_some]
  cases streamOf variant with
  | error e => exact ⟨fun _ => ⟨e, rfl⟩, fun _ => rfl⟩
  | ok stream => exact ⟨nofun, nofun⟩

/-- Without a resolved place, and only then, a block alone has no streams to list. -/
theorem Block.fails_iff (b : Block) :
    (∃ e, streams b.toText base = .error e) ↔ b.IsRefused base := by
  rw [← b.variant?_fails_iff, streams_block]
  cases b.variant? base <;> simp [Except.map]

/-- A block delivers whatever streams it has alone. -/
theorem delivers_iff {part : List Stream} :
    Delivers base b part ↔ streams b.toText base = .ok part := by
  refine ⟨Delivers.alone, fun halone => ⟨halone, ?_, ?_⟩⟩ <;> rw [streams_block] at halone
  · cases hvariant : b.variant? base with
    | error e => rw [hvariant] at halone; cases halone
    | ok variant =>
      rw [hvariant] at halone
      obtain rfl := Except.ok.inj halone
      exact Option.length_toList_le
  · cases hvariant : b.variant? base with
    | error e => rw [hvariant] at halone; cases halone
    | ok variant =>
      rw [hvariant] at halone
      obtain rfl := Except.ok.inj halone
      cases variant with
      | none => simp [streamList]
      | some variant => simp [streamList_some_eq_nil_iff]

/-- The streams of a playlist that consists of blocks are those of the blocks one by one, in
order. There are none only if one of the blocks is refused. -/
theorem streams_unless_refused (base : Option Text) (blocks : List Block) {rest : Text}
    (hrest : ∀ c ∈ rest, Text.isBlank c = true) :
    ((∃ list, streams (playlistText blocks ++ rest) base = .ok list) ↔
      ∀ b ∈ blocks, ¬ b.IsRefused base) ∧
    ∀ list, streams (playlistText blocks ++ rest) base = .ok list ↔
      ∃ parts, List.Forall₂ (Delivers base) blocks parts ∧ list = parts.flatten := by
  have hstreams : streams (playlistText blocks ++ rest) base =
      (blocks.mapM fun b => streams b.toText base).map List.flatten := by
    simp only [streams_playlistText blocks hrest, streams_block]
  have hdelivers : Delivers base = fun b part => streams b.toText base = .ok part := by
    funext b part
    exact propext delivers_iff
  have hok (list : List Stream) : streams (playlistText blocks ++ rest) base = .ok list ↔
      ∃ parts, blocks.mapM (fun b => streams b.toText base) = .ok parts ∧ list = parts.flatten := by
    rw [hstreams]
    cases blocks.mapM fun b => streams b.toText base <;> simp [Except.map, eq_comm]
  constructor
  · calc (∃ list, streams (playlistText blocks ++ rest) base = .ok list)
      _ ↔ ∃ parts, blocks.mapM (fun b => streams b.toText base) = .ok parts := by simp [hok]
      _ ↔ ∀ b ∈ blocks, ∃ part, streams b.toText base = .ok part := mapM_succeeds_iff
      _ ↔ ∀ b ∈ blocks, ¬ b.IsRefused base := by
        refine forall₂_congr fun b _ => ?_
        rw [← b.fails_iff]
        cases streams b.toText base <;> simp
  · intro list
    rw [hok, hdelivers]
    simp only [mapM_eq_ok_iff]

/-- The block of two lines that are ended by line feeds. -/
def blockOf (info place : Text)
    (hinfo : info.all (Text.endsLine · = false) = true)
    (hplace : place.all (Text.endsLine · = false) = true)
    (h : place ≠ [] ∧ place.head? ≠ some '#' ∧ Text.strip place = place) : Block :=
  have hend : Text.IsLineEnd ['\n'] := .inr ⟨'\n', rfl, rfl⟩
  ⟨info, ['\n'], place, ['\n'], Text.forall_mem_of_all hinfo, hend,
    Text.forall_mem_of_all hplace, h.1, h.2.1, h.2.2, hend⟩

/-- A variant without a number for its bit rate does not disturb those around it. -/
theorem streams_around_broken_block :
    let base : Option Text := some "http://h/m".toList
    let first := blockOf ":BANDWIDTH=1".toList "/itag/18/a".toList rfl rfl (by decide +kernel)
    let broken := blockOf ":BANDWIDTH=x".toList "/itag/22/b".toList rfl rfl (by decide +kernel)
    let last := blockOf ":RESOLUTION=2x720".toList "itag/22/c".toList rfl rfl (by decide +kernel)
    let blocks := [first, broken, last]
    ∃ list, streams (playlistText blocks ++ ['\n']) base = .ok list ∧
      list.map (·.url) = ["http://h/itag/18/a".toList, "http://h/itag/22/c".toList] ∧
      (∀ b ∈ blocks, ¬ b.IsRefused base) ∧
      ∃ parts, List.Forall₂ (Delivers base) blocks parts ∧ list = parts.flatten := by
  intro base first broken last blocks
  have hblank : ∀ c ∈ ['\n'], Text.isBlank c = true := Text.forall_mem_of_all rfl
  have hurls : ((streams (playlistText blocks ++ ['\n']) base).map (·.map (·.url))).toOption =
      some ["http://h/itag/18/a".toList, "http://h/itag/22/c".toList] := by
    decide +kernel
  have hall := streams_unless_refused base blocks hblank
  cases hlist : streams (playlistText blocks ++ ['\n']) base with
  | error e => rw [hlist] at hurls; cases hurls
  | ok list =>
    rw [hlist] at hurls
    exact ⟨list, rfl, Option.some.inj hurls, hall.1.mp ⟨list, hlist⟩, (hall.2 list).mp hlist⟩

/-- A variant that makes a stream is lost when a variant follows whose place is a double slash
and a lone bracket. -/
theorem refused_block_loses_playlist :
    let base : Option Text := some "http://h/m".toList
    let first := blockOf ":BANDWIDTH=1".toList "/itag/18/a".toList rfl rfl (by decide +kernel)
    let second := blockOf ":BANDWIDTH=2".toList "//[".toList rfl rfl (by decide +kernel)
    (streams first.toText base).map (·.map (·.url)) = .ok ["http://h/itag/18/a".toList] ∧
      streams (playlistText [first, second]) base = .error .misplacedBracket := by
  decide +kernel

end Playable.Manifest
