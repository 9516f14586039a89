import Playable.Proofs.Network.Dependence
import Playable.Proofs.Sequence
import Playable.Proofs.Session.Transparency
import Playable.Proofs.Signing.Isolation
import Playable.Proofs.Signing.Legacy

/-!
# Resolving fetched data again

Resolving leaves the fetched data as they are but for the formats of the legacy list, which are
added to the other formats and stay there. So they are added once more each time the same data are
resolved, and so are their streams. Nothing else changes, as long as the manifest does not.
-/

namespace Playable.Session

open Network Page Record Signing

/-- The formats that resolving fetched data leaves behind: those of the legacy list, unless the
video is being broadcast. -/
def leftBehind (info : VideoInfo) : List Format :=
  if info.response.videoDetails.isLive then [] else legacyFormats (info.legacyList.getD [])

/-- The fetched data with further formats. -/
def withFormats (info : VideoInfo) (more : List Format) : VideoInfo :=
  let add (data : StreamingData) := { data with formats := data.formats ++ more }
  { info with response :=
    { info.response with streamingData := info.response.streamingData.map add } }

/-- A number of copies of a list, one behind the other. -/
def copies {α : Type} (n : Nat) (list : List α) : List α :=
  (List.replicate n list).flatten

/-- The outcome of resolving the same data again and again, each time with the data as they were
left the time before, whatever was asked for in between. -/
def resolveAgain (site : Site) (fetched : Fetched) (logs : Nat → List Text) : Nat → Resolution
  | 0 => resolve site fetched (logs 0)
  | n + 1 =>
    resolve site { fetched with info := (resolveAgain site fetched logs n).info } (logs (n + 1))

/-- The manifest of a video, if it has one, is answered in the same way each time. -/
def HasSteadyManifest (site : Site) (info : VideoInfo) : Prop :=
  ∀ data url, info.response.streamingData = some data → data.hlsManifestUrl = some url →
    ∀ n, site.respond url n = site.respond url 0

variable {site : Site} {fetched : Fetched} {info : VideoInfo} {data : StreamingData}
  {logs : Nat → List Text} {video : Video} {log : List Text}

/-- The formats of the legacy list are added behind the others, if there is such a list. -/
theorem withLegacy_eq (legacyList : Option RawText) (data : StreamingData) :
    withLegacy legacyList data =
      { data with formats := data.formats ++ legacyFormats (legacyList.getD []) } := by
  have hnone : legacyFormats [] = [] := rfl
  rcases legacyList with _ | list
  · simp [withLegacy, hnone]
  · by_cases h : list = []
    · simp [withLegacy, h, hnone]
    · simp [withLegacy, h, addLegacy_eq]

/-- Nothing changes without further formats. -/
theorem withFormats_nil (info : VideoInfo) : withFormats info [] = info := by
  obtain ⟨⟨details, data⟩, legacyList⟩ := info
  cases data <;> simp [withFormats]

/-- Formats are added one list behind the other. -/
theorem withFormats_withFormats (info : VideoInfo) (more further : List Format) :
    withFormats (withFormats info more) further = withFormats info (more ++ further) := by
  obtain ⟨⟨details, data⟩, legacyList⟩ := info
  cases data <;> simp [withFormats]

/-- A further copy of a list stands behind the others. -/
theorem copies_succ {α : Type} (n : Nat) (list : List α) :
    copies (n + 1) list = copies n list ++ list := by
  simp [copies, List.replicate_succ']

/-! ## One resolution -/

/-- Resolving fetched data leaves formats behind, and nothing else, whether it succeeds or not. -/
theorem info_resolve (site : Site) (fetched : Fetched) (log : List Text) :
    (resolve site fetched log).info = withFormats fetched.info (leftBehind fetched.info) := by
  obtain ⟨⟨⟨details, data⟩, legacyList⟩, engine, player⟩ := fetched
  cases data with
  | none => rfl
  | some data =>
    cases hlive : details.isLive with
    | true =>
      have hnone : leftBehind ⟨⟨details, some data⟩, legacyList⟩ = [] := if_pos hlive
      rw [hnone, withFormats_nil]
      simp only [resolve, hlive, if_true]
      cases (manifestStreams site data.hlsManifestUrl log).1 <;> rfl
    | false =>
      have hlist : leftBehind ⟨⟨details, some data⟩, legacyList⟩ =
          legacyFormats (legacyList.getD []) := if_neg (by simp [hlive])
      rw [hlist]
      simp only [resolve, hlive, Bool.false_eq_true, if_false, withLegacy_eq]
      split <;> rfl

/-- The formats that resolving fetched data makes streams of. -/
def delivered (info : VideoInfo) (data : StreamingData) : List Format :=
  if info.response.videoDetails.isLive then []
  else data.formats ++ leftBehind info ++ data.adaptiveFormats

/-- The streams of a resolved video are those of its formats and those of its manifest. -/
theorem result_resolve (hdata : fetched.info.response.streamingData = some data) :
    (resolve site fetched log).result =
      (streamsOf fetched.engine (delivered fetched.info data)).mapError .obstacle >>= fun streams =>
        ((manifestStreams site data.hlsManifestUrl log).1).mapError .url >>= fun hls =>
          .ok (videoOf fetched.info (streams ++ hls)) := by
  cases hlive : fetched.info.response.videoDetails.isLive with
  | true =>
    have hnone : delivered fetched.info data = [] := if_pos hlive
    rw [hnone]
    simp only [resolve, hdata, hlive, if_true]
    cases (manifestStreams site data.hlsManifestUrl log).1 <;> rfl
  | false =>
    have hlist : leftBehind fetched.info = legacyFormats (fetched.info.legacyList.getD []) :=
      if_neg (by simp [hlive])
    have hall : delivered fetched.info data = recorded fetched.info.legacyList data := by
      simp only [delivered, hlive, Bool.false_eq_true, if_false, hlist, recorded, withLegacy_eq]
    rw [resolve_result_eq site hdata hlive log, hall, formatStreams]

/-- Fetched data are resolved exactly if their formats and their manifest have streams, and these
are the streams of the video. -/
theorem resolve_eq_ok_iff (hdata : fetched.info.response.streamingData = some data) :
    (resolve site fetched log).result = .ok video ↔ ∃ streams,
      streamsOf fetched.engine (delivered fetched.info data) = .ok streams ∧ ∃ hls,
      (manifestStreams site data.hlsManifestUrl log).1 = .ok hls ∧
      videoOf fetched.info (streams ++ hls) = video := by
  simp only [result_resolve hdata, bind_eq_ok_iff, mapError_eq_ok_iff, Except.ok.injEq]

/-- The streams of copies of a list are copies of its streams. -/
theorem streamsOf_copies {engine : Option Cipher.Engine} {formats : List Format}
    {streams : List Stream} (h : streamsOf engine formats = .ok streams) (n : Nat) :
    streamsOf engine (copies n formats) = .ok (copies n streams) := by
  induction n with
  | zero => rfl
  | succ n ih =>
    rw [copies_succ, copies_succ]
    exact streamsOf_append_eq_ok_iff.mpr ⟨_, _, ih, h, rfl⟩

/-- Formats that are left behind deliver their streams between those of the formats that were there
before. -/
theorem exists_streamsOf_delivered {streams : List Stream}
    (h : streamsOf fetched.engine (delivered info data) = .ok streams) :
    ∃ before added behind, streams = before ++ added ++ behind ∧
      streamsOf fetched.engine (leftBehind info) = .ok added ∧
      ∀ n, streamsOf fetched.engine (delivered (withFormats info (copies n (leftBehind info)))
        { data with formats := data.formats ++ copies n (leftBehind info) }) =
          .ok (before ++ copies (n + 1) added ++ behind) := by
  cases hlive : info.response.videoDetails.isLive with
  | true =>
    have hleft : leftBehind info = [] := if_pos hlive
    have hnone : ∀ more data, delivered (withFormats info more) data = [] :=
      fun more data => if_pos hlive
    have hempty : streams = [] := by
      rw [delivered, if_pos hlive] at h
      exact (Except.ok.inj h).symm
    refine ⟨[], [], [], hempty, by rw [hleft]; rfl, fun n => ?_⟩
    rw [hnone, copies, List.flatten_replicate_nil]
    rfl
  | false =>
    have hall : ∀ more data, delivered (withFormats info more) data =
        data.formats ++ leftBehind info ++ data.adaptiveFormats :=
      fun more data => if_neg (by simp [withFormats, hlive])
    rw [delivered, if_neg (by simp [hlive])] at h
    obtain ⟨front, behind, hfront, hbehind, rfl⟩ := streamsOf_append_eq_ok_iff.mp h
    obtain ⟨before, added, hbefore, hadded, rfl⟩ := streamsOf_append_eq_ok_iff.mp hfront
    refine ⟨before, added, behind, rfl, hadded, fun n => ?_⟩
    rw [hall]
    dsimp only
    rw [List.append_assoc data.formats, ← copies_succ]
    exact streamsOf_append_eq_ok_iff.mpr ⟨_, behind,
      streamsOf_append_eq_ok_iff.mpr ⟨before, _, hbefore, streamsOf_copies hadded (n + 1), rfl⟩,
      hbehind, rfl⟩

/-! ## The manifest -/

/-- The streams of a manifest that is answered in the same way each time are the same each time. -/
theorem manifestStreams_of_steady {manifestUrl : Option Text}
    (h : ∀ url, manifestUrl = some url → ∀ n, site.respond url n = site.respond url 0)
    (log later : List Text) :
    (manifestStreams site manifestUrl later).1 = (manifestStreams site manifestUrl log).1 := by
  let steady := Site.steady (fun url => site.respond url 0) site.shared
  have hsteady (log : List Text) :
      (manifestStreams site manifestUrl log).1 = (manifestStreams steady manifestUrl log).1 := by
    refine manifestStreams_congr fun url hurl => ?_
    obtain ⟨result, n, hdownload⟩ := exists_download_eq steady url (log.count url)
    rw [hdownload steady rfl rfl log rfl, hdownload site (funext (h url hurl)) rfl log rfl]
  obtain ⟨streams, more, hstreams⟩ :=
    exists_manifestStreams_steady (fun url => site.respond url 0) site.shared manifestUrl
  rw [hsteady, hsteady, hstreams, hstreams]

/-! ## Many resolutions -/

/-- Each resolution leaves one more copy of the formats behind. -/
theorem info_resolveAgain (site : Site) (fetched : Fetched) (logs : Nat → List Text) (n : Nat) :
    (resolveAgain site fetched logs n).info =
      withFormats fetched.info (copies (n + 1) (leftBehind fetched.info)) := by
  induction n with
  | zero =>
    rw [resolveAgain, info_resolve]
    simp [copies]
  | succ n ih =>
    rw [resolveAgain, info_resolve, ih, copies_succ (n + 1), ← withFormats_withFormats]
    rfl

/-- The data that have been resolved a number of times, as they are resolved once more. -/
theorem resolveAgain_eq (site : Site) (fetched : Fetched) (logs : Nat → List Text) (n : Nat) :
    resolveAgain site fetched logs n = resolve site
      { fetched with info := withFormats fetched.info (copies n (leftBehind fetched.info)) }
      (logs n) := by
  cases n with
  | zero => rw [resolveAgain, copies, List.replicate_zero, List.flatten_nil, withFormats_nil]
  | succ n => rw [resolveAgain, info_resolveAgain]

/-- Fetched data that are resolved once are resolved again and again, as long as the manifest is
answered in the same way. Each time the data are left as they were but for one more copy of the
formats of the legacy list, and the video is the same but for one more copy of the streams of these
formats. So the data stay as they are, and the video is the same each time, if the video is being
broadcast or has no legacy list with a readable format. -/
theorem resolves_again (hsteady : HasSteadyManifest site fetched.info)
    (h : (resolve site fetched (logs 0)).result = .ok video) :
    ∃ before added behind,
      streamsOf fetched.engine (leftBehind fetched.info) = .ok added ∧
      (∀ n, (resolveAgain site fetched logs n).info =
          withFormats fetched.info (copies (n + 1) (leftBehind fetched.info)) ∧
        (resolveAgain site fetched logs n).result =
          .ok { video with streams := before ++ copies (n + 1) added ++ behind }) ∧
      (leftBehind fetched.info = [] → ∀ n,
        (resolveAgain site fetched logs n).info = fetched.info ∧
        (resolveAgain site fetched logs n).result = .ok video) := by
  cases hdata : fetched.info.response.streamingData with
  | none =>
    simp only [resolve, hdata] at h
    cases h
  | some data =>
    obtain ⟨streams, hstreams, hls, hmanifest, rfl⟩ := (resolve_eq_ok_iff hdata).mp h
    obtain ⟨before, added, behind, rfl, hadded, hcopies⟩ := exists_streamsOf_delivered hstreams
    have hresult (n : Nat) : (resolveAgain site fetched logs n).result =
        .ok (videoOf fetched.info (before ++ copies (n + 1) added ++ (behind ++ hls))) := by
      have hagain : (manifestStreams site data.hlsManifestUrl (logs n)).1 = .ok hls :=
        (manifestStreams_of_steady (hsteady data · hdata) _ _).trans hmanifest
      rw [resolveAgain_eq]
      refine (resolve_eq_ok_iff (by simp [withFormats, hdata])).mpr
        ⟨_, hcopies n, hls, hagain, ?_⟩
      simp [withFormats, videoOf]
    refine ⟨before, added, behind ++ hls, hadded,
      fun n => ⟨info_resolveAgain site fetched logs n, hresult n⟩, fun hnone n => ⟨?_, ?_⟩⟩
    · rw [info_resolveAgain, hnone, copies, List.flatten_replicate_nil, withFormats_nil]
    · rw [hnone] at hadded
      obtain rfl : [] = added := Except.ok.inj hadded
      rw [hresult n, copies, List.flatten_replicate_nil]
      simp [videoOf]

/-- A video with a legacy list of one format and a manifest of one stream, resolved three times. -/
theorem resolves_again_third_time :
    let place : SignatureCipher := ⟨"u?sig=x".toList, none, defaultParameter.raw⟩
    let data : StreamingData := ⟨[sampleFormat 18 (some place) none], [], some "http://h/m".toList⟩
    let list := Text.raw "itag=22&url=v%3Fsig%3Dok".toList
    let info : VideoInfo := ⟨⟨⟨['i'], ['t'], none, none, false⟩, some data⟩, some list⟩
    let playlist := "#EXT-X-STREAM-INF:BANDWIDTH=1\n/itag/93/a\n".toList
    let site := Site.steady (fun _ => .page 200 playlist) false
    let stream (itag : Int) (url : String) : Stream :=
      ⟨itag, url.toList, none, none, none, none, none, none, false⟩
    let rendition : Stream :=
      ⟨93, "http://h/itag/93/a".toList, some "hd720".toList, some "video/mp4".toList, none, none,
        some 1, none, true⟩
    let video (n : Nat) : Video := ⟨['i'], ['t'], false,
      [stream 18 "u?sig=x"] ++ copies n [stream 22 "v?sig=ok"] ++ [rendition]⟩
    HasSteadyManifest site info ∧ (resolve site ⟨info, none, none⟩ []).result = .ok (video 1) ∧
      (resolveAgain site ⟨info, none, none⟩ (fun _ => []) 2).result = .ok (video 3) ∧
      ∃ before added behind, streamsOf none (leftBehind info) = .ok added ∧
        (video 3).streams = before ++ copies 3 added ++ behind := by
  intro place data list info playlist site stream rendition video
  have hsteady : HasSteadyManifest site info := fun _ _ _ _ _ => rfl
  have hfirst : (resolve site ⟨info, none, none⟩ []).result = .ok (video 1) := by decide +kernel
  have hthird : (resolveAgain site ⟨info, none, none⟩ (fun _ => []) 2).result =
      .ok (video 3) := by decide +kernel
  obtain ⟨before, added, behind, hadded, hagain, -⟩ :=
    @resolves_again site ⟨info, none, none⟩ (fun _ => []) (video 1) hsteady hfirst
  have hstreams := Except.ok.inj (hthird.symm.trans (hagain 2).2)
  exact ⟨hsteady, hfirst, hthird, before, added, behind, hadded, congrArg Video.streams hstreams⟩

/-- With a legacy list the data do not stay as they are, and the second video is not the first. -/
theorem legacy_format_piles_up :
    let place : SignatureCipher := ⟨"u?sig=x".toList, none, defaultParameter.raw⟩
    let data : StreamingData := ⟨[sampleFormat 18 (some place) none], [], none⟩
    let list := Text.raw "itag=22&url=v%3Fsig%3Dok".toList
    let info : VideoInfo := ⟨⟨⟨['i'], ['t'], none, none, false⟩, some data⟩, some list⟩
    let site := Site.ofPages [] false
    let again := resolveAgain site ⟨info, none, none⟩ fun _ => []
    let delivers (n : Nat) (itags : List Int) :=
      (again n).result.toOption.map (·.streams.map (·.itag)) = some itags
    HasSteadyManifest site info ∧ (delivers 0 [18, 22] ∧ delivers 1 [18, 22, 22]) ∧
      (again 0).info ≠ info := by
  refine ⟨?_, by decide +kernel, by decide +kernel⟩
  rintro data url ⟨⟩ ⟨⟩

end Playable.Session
