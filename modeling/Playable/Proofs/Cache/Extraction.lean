import Playable.Proofs.Cache.Recency

/-!
# How often a script is read

A version that is remembered is not extracted again. Along a history without clearing,
the plan of a version is kept until a whole capacity of other versions was returned or
built after its last use, and its failure until a whole capacity of other versions
failed after it. So between two extractions of one version one of the two has
happened.
-/

namespace Playable.Cache

open Cipher Script

variable {extract : Extractor} {capacity : Nat} {cache : Cache} {player : Text}
  {events : List Event} {event : Event}

/-- The registers of a cache of the given capacity hold every name at most once. -/
structure WellOrdered (capacity : Nat) (cache : Cache) : Prop where
  /-- The capacity never changes. -/
  capacity_eq : cache.capacity = capacity
  /-- No plan is remembered twice. -/
  contexts_nodup : (Register.names cache.contexts).Nodup
  /-- No failure is remembered twice. -/
  failures_nodup : (Register.names cache.failures).Nodup

/-- A fresh cache is well ordered. -/
theorem wellOrdered_fresh (size : Int) (denied : List Text) :
    WellOrdered (max 1 size).toNat (fresh size denied) :=
  ⟨rfl, List.nodup_nil, List.nodup_nil⟩

/-- Every step keeps a cache well ordered. -/
theorem WellOrdered.step (h : WellOrdered capacity cache) (hs : Step extract cache event) :
    WellOrdered capacity event.after := by
  cases hs with
  | idle => exact h
  | reuse => exact { h with contexts_nodup := nodup_touch h.contexts_nodup }
  | build => exact { h with contexts_nodup := nodup_remember h.contexts_nodup }
  | fail => exact { h with failures_nodup := nodup_remember h.failures_nodup }
  | accident => exact h
  | clear => exact ⟨h.capacity_eq, List.nodup_nil, List.nodup_nil⟩

/-- The events so far contain a last one that returned or built the plan of a version,
and what was returned or built after it is all that can stand behind the version. -/
def LastServed (capacity : Nat) (player : Text) (events : List Event) (cache : Cache) : Prop :=
  ∃ older use younger, events = older ++ use :: younger ∧ use.Serves player ∧
    (∀ event ∈ younger, ¬ event.Serves player) ∧
    Follows capacity cache.contexts player fun o => ∃ event ∈ younger, event.Serves o

/-- What failed in the events so far is all that can stand behind the failure of a
version. -/
def FailedBefore (capacity : Nat) (player : Text) (events : List Event) (cache : Cache) : Prop :=
  Follows capacity cache.failures player fun o => ∃ event ∈ events, event.Fails o

/-- One event more. -/
theorem exists_mem_concat {P : Event → Prop} :
    (∃ e ∈ events ++ [event], P e) ↔ (∃ e ∈ events, P e) ∨ P event := by
  simp only [List.mem_append, List.mem_singleton, or_and_right, exists_or, exists_eq_left]

/-- An event that does not serve the version becomes the youngest one. -/
theorem LastServed.extend (h : LastServed capacity player events cache)
    (hnot : ¬ event.Serves player)
    (hfollows : ∀ Recent, Follows capacity cache.contexts player Recent →
      Follows capacity event.after.contexts player fun o => Recent o ∨ event.Serves o) :
    LastServed capacity player (events ++ [event]) event.after := by
  obtain ⟨older, use, younger, rfl, huse, hyounger, hback⟩ := h
  refine ⟨older, use, younger ++ [event], by simp, huse, ?_, ?_⟩
  · intro e he
    rcases List.mem_append.mp he with he | he
    · exact hyounger e he
    · rw [List.mem_singleton] at he
      exact he ▸ hnot
  · simpa only [exists_mem_concat] using hfollows _ hback

/-- A step that does not extract the version, and does not clear the cache, keeps
account of its last use. -/
theorem LastServed.step (h : LastServed capacity player events cache)
    (hw : WellOrdered capacity cache) (hs : Step extract cache event)
    (hnot : ¬ event.Extracts player) (hclear : event.request ≠ .clear) :
    LastServed capacity player (events ++ [event]) event.after := by
  obtain rfl := hw.capacity_eq
  cases hs with
  | idle hresult =>
    exact h.extend (fun ⟨_, plan, hplan⟩ => hresult plan hplan) fun _ hf => hf.mono fun _ => .inl
  | @reuse request other plan hplayer =>
    by_cases heq : other = player
    · subst heq
      exact ⟨events, _, [], rfl, ⟨hplayer, plan, rfl⟩, by simp, follows_of_last _⟩
    · refine h.extend (fun ⟨hsame, _⟩ => heq (Option.some.inj (hplayer.symm.trans hsame)))
        fun _ hf => (hf.touch heq).mono fun o ho => ho.imp_right fun he => ?_
      subst he
      exact ⟨hplayer, plan, rfl⟩
  | @build other _ plan _ _ hcontexts =>
    refine h.extend (fun ⟨hsame, _⟩ => hnot ⟨hsame, rfl⟩) fun _ hf =>
      (hf.remember hw.contexts_nodup (Register.get?_eq_none_iff.mp hcontexts)).mono
        fun o ho => ho.imp_right fun he => ?_
    subst he
    exact ⟨rfl, plan, rfl⟩
  | fail => exact h.extend (fun ⟨_, _, hplan⟩ => nomatch hplan) fun _ hf => hf.mono fun _ => .inl
  | accident =>
    exact h.extend (fun ⟨_, _, hplan⟩ => nomatch hplan) fun _ hf => hf.mono fun _ => .inl
  | clear => exact absurd rfl hclear

/-- A step that does not extract the version, and does not clear the cache, keeps
account of what failed after it. -/
theorem FailedBefore.step (h : FailedBefore capacity player events cache)
    (hw : WellOrdered capacity cache) (hs : Step extract cache event)
    (hclear : event.request ≠ .clear) :
    FailedBefore capacity player (events ++ [event]) event.after := by
  obtain rfl := hw.capacity_eq
  unfold FailedBefore at h ⊢
  simp only [exists_mem_concat]
  cases hs with
  | idle => exact h.mono fun _ => .inl
  | reuse => exact h.mono fun _ => .inl
  | build => exact h.mono fun _ => .inl
  | @fail other _ fault _ hfailures =>
    refine (h.remember hw.failures_nodup (Register.get?_eq_none_iff.mp hfailures)).mono
      fun o ho => ho.imp_right fun he => ?_
    subst he
    exact ⟨⟨rfl, rfl⟩, _, rfl⟩
  | accident => exact h.mono fun _ => .inl
  | clear => exact absurd rfl hclear

/-- Serving requests keeps a cache well ordered. -/
theorem WellOrdered.final (h : WellOrdered capacity cache) (extract : Extractor)
    (requests : List Request) :
    WellOrdered capacity (final extract cache requests) :=
  history_induction (P := fun _ cache => WellOrdered capacity cache)
    (fun _ now request _ _ hc => hc.step (step_serve extract now request)) [] h

/-- Along requests that do not extract the version and do not clear the cache, its last
use is accounted for. -/
theorem LastServed.history {requests : List Request} (h : LastServed capacity player events cache)
    (hw : WellOrdered capacity cache) (hclear : .clear ∉ requests)
    (hnot : ∀ event ∈ history extract cache requests, ¬ event.Extracts player) :
    LastServed capacity player (events ++ history extract cache requests)
      (Cache.final extract cache requests) := by
  refine (history_induction (P := fun events cache => WellOrdered capacity cache ∧
    LastServed capacity player events cache) ?_ events ⟨hw, h⟩).2
  rintro events now request hr he ⟨hw, h⟩
  have hs := step_serve extract now request
  exact ⟨hw.step hs, h.step hw hs (hnot _ he) fun hc => hclear (by simpa [← hc] using hr)⟩

/-- Along requests that do not clear the cache, the failures after one are accounted
for. -/
theorem FailedBefore.history {requests : List Request}
    (h : FailedBefore capacity player events cache) (hw : WellOrdered capacity cache)
    (extract : Extractor) (hclear : .clear ∉ requests) :
    FailedBefore capacity player (events ++ history extract cache requests)
      (Cache.final extract cache requests) := by
  refine (history_induction (P := fun events cache => WellOrdered capacity cache ∧
    FailedBefore capacity player events cache) ?_ events ⟨hw, h⟩).2
  rintro events now request hr _ ⟨hw, h⟩
  have hs := step_serve extract now request
  exact ⟨hw.step hs, h.step hw hs fun hc => hclear (by simpa [← hc] using hr)⟩

/-- The extractor runs only for a version about which nothing is remembered. -/
theorem Step.forgotten (hs : Step extract cache event) (h : event.Extracts player) :
    Register.get? cache.contexts player = none ∧ Register.get? cache.failures player = none := by
  obtain ⟨hplayer, hextracted⟩ := h
  cases hs with
  | idle => cases hextracted
  | reuse => cases hextracted
  | build _ hfailures hcontexts => exact Option.some.inj hplayer ▸ ⟨hcontexts, hfailures⟩
  | fail _ hfailures hcontexts => exact Option.some.inj hplayer ▸ ⟨hcontexts, hfailures⟩
  | accident _ hfailures hcontexts => exact Option.some.inj hplayer ▸ ⟨hcontexts, hfailures⟩
  | clear => cases hextracted

/-- After an extraction that does not end in an accident the version is remembered:
either its plan, as the latest one, or its failure. -/
theorem Step.remembered (hs : Step extract cache event) (hw : WellOrdered capacity cache)
    (hextract : ∀ script fault, extract script ≠ .error (.argument fault))
    (h : event.Extracts player) :
    (event.Serves player ∧ LastServed capacity player [event] event.after) ∨
      (event.Fails player ∧ FailedBefore capacity player [] event.after) := by
  obtain rfl := hw.capacity_eq
  obtain ⟨hplayer, hextracted⟩ := h
  cases hs with
  | idle => cases hextracted
  | reuse => cases hextracted
  | @build other _ plan _ _ hcontexts =>
    have hserves : Event.Serves _ player := ⟨hplayer, plan, rfl⟩
    obtain rfl := Option.some.inj hplayer
    exact .inl ⟨hserves, [], _, [], rfl, hserves, by simp,
      follows_remember_self cache.capacity_pos (Register.get?_eq_none_iff.mp hcontexts)⟩
  | fail _ hfailures =>
    obtain rfl := Option.some.inj hplayer
    exact .inr ⟨⟨⟨hplayer, rfl⟩, _, rfl⟩,
      follows_remember_self cache.capacity_pos (Register.get?_eq_none_iff.mp hfailures)⟩
  | accident _ _ _ he => exact absurd he (hextract _ _)
  | clear => cases hextracted

/-- Between two extractions of a version with none in between, the version was crowded
out: by plans used after its own last use, or by failures after its own. -/
theorem crowdedOut_between {requests : List Request} {past between later : List Event}
    {first second : Event} (hw : WellOrdered capacity cache)
    (hextract : ∀ script fault, extract script ≠ .error (.argument fault))
    (hclear : .clear ∉ requests)
    (hsplit : history extract cache requests = past ++ first :: (between ++ second :: later))
    (hfirst : first.Extracts player) (hsecond : second.Extracts player)
    (hnot : ∀ event ∈ between, ¬ event.Extracts player) :
    (first.Serves player ∧ ∃ older use younger, first :: between = older ++ use :: younger ∧
        use.Serves player ∧ (∀ event ∈ younger, ¬ event.Serves player) ∧
        CrowdedOut capacity player fun o => ∃ event ∈ younger, event.Serves o) ∨
      (first.Fails player ∧
        CrowdedOut capacity player fun o => ∃ event ∈ between, event.Fails o) := by
  obtain ⟨before, rest, rfl, -, hrest⟩ := history_eq_append hsplit
  cases rest with
  | nil => cases hrest
  | cons request rest =>
  obtain ⟨rfl, hmore⟩ := List.cons.inj hrest
  obtain ⟨mid, rest, rfl, rfl, hlater⟩ := history_eq_append hmore.symm
  cases rest with
  | nil => cases hlater
  | cons last rest =>
  obtain ⟨rfl, -⟩ := List.cons.inj hlater
  have hw := hw.final extract before
  have hs := step_serve extract (final extract cache before) request
  have hclear : .clear ∉ mid := fun hm => hclear (by simp [hm])
  obtain ⟨hcontexts, hfailures⟩ := (step_serve extract _ last).forgotten hsecond
  rcases hs.remembered hw hextract hfirst with ⟨hserves, hlast⟩ | ⟨hfails, hfailed⟩
  · obtain ⟨older, use, younger, heq, huse, hyounger, hfollows⟩ :=
      hlast.history (hw.step hs) hclear hnot
    exact .inl ⟨hserves, older, use, younger, heq, huse, hyounger, hfollows.crowdedOut hcontexts⟩
  · have hfollows := hfailed.history (hw.step hs) extract hclear
    exact .inr ⟨hfails, hfollows.crowdedOut hfailures⟩

/-- Of the extractions of a version there is a first one. -/
theorem exists_first_extraction (between later : List Event) {second : Event}
    (hsecond : second.Extracts player) :
    ∃ between' later' second', between ++ second :: later = between' ++ second' :: later' ∧
      second'.Extracts player ∧ ∀ event ∈ between', ¬ event.Extracts player := by
  induction between with
  | nil => exact ⟨[], later, second, rfl, hsecond, by simp⟩
  | cons event between ih =>
    by_cases he : event.Extracts player
    · exact ⟨[], between ++ second :: later, event, rfl, he, by simp⟩
    · obtain ⟨between', later', second', heq, hsecond', hnot⟩ := ih
      refine ⟨event :: between', later', second', ?_, hsecond', ?_⟩
      · rw [List.cons_append, heq, List.cons_append]
      · simpa using ⟨he, hnot⟩

/-- The extractor runs again for a version only after it was forgotten. Let it run for a
version twice with no run for it in between. Either the first run gave a plan, and after
the last time that this plan was returned or built as many other versions as the
capacity were returned or built; or the first run failed, and as many other versions
failed in between. So while fewer other versions than the capacity are in play, the
extractor runs for a version at most once. -/
theorem extracts_again_only_if_crowded_out (extract : Extractor)
    (hextract : ∀ script fault, extract script ≠ .error (.argument fault))
    (size : Int) (denied : List Text) (requests : List Request) (hclear : .clear ∉ requests)
    (player : Text) :
    (∀ past first between second later,
      history extract (fresh size denied) requests =
        past ++ first :: (between ++ second :: later) →
      first.Extracts player → second.Extracts player →
      (∀ event ∈ between, ¬ event.Extracts player) →
      (first.Serves player ∧ ∃ older use younger, first :: between = older ++ use :: younger ∧
          use.Serves player ∧ (∀ event ∈ younger, ¬ event.Serves player) ∧
          CrowdedOut (max 1 size).toNat player fun o => ∃ event ∈ younger, event.Serves o) ∨
        (first.Fails player ∧
          CrowdedOut (max 1 size).toNat player fun o => ∃ event ∈ between, event.Fails o)) ∧
    (¬ CrowdedOut (max 1 size).toNat player
        (fun o => ∃ request ∈ requests, request.player? = some o) →
      ∀ past first between second later,
        history extract (fresh size denied) requests =
          past ++ first :: (between ++ second :: later) →
        first.Extracts player → ¬ second.Extracts player) := by
  have hw := wellOrdered_fresh size denied
  refine ⟨fun past first between second later hsplit =>
      crowdedOut_between hw hextract hclear hsplit,
    fun hfew past first between second later hsplit hfirst hsecond => hfew ?_⟩
  obtain ⟨between', later', second', heq, hsecond', hnot⟩ :=
    exists_first_extraction between later hsecond
  rw [heq] at hsplit
  -- every event of the history is about a version that is in play
  have hplay : ∀ event ∈ first :: between', ∀ o, event.request.player? = some o →
      ∃ request ∈ requests, request.player? = some o := by
    intro event he o ho
    refine ⟨event.request, ?_, ho⟩
    rw [← map_request_history extract (fresh size denied) requests, hsplit]
    refine List.mem_map_of_mem ?_
    rw [← List.cons_append]
    exact List.mem_append_right _ (List.mem_append_left _ he)
  rcases crowdedOut_between hw hextract hclear hsplit hfirst hsecond' hnot with
    ⟨-, older, use, younger, hparts, -, -, hcrowded⟩ | ⟨-, hcrowded⟩
  · refine hcrowded.mono fun o ⟨event, he, hplayer, _⟩ => hplay event ?_ o hplayer
    rw [hparts]
    simp [he]
  · exact hcrowded.mono fun o ⟨event, he, ⟨hplayer, _⟩, _⟩ =>
      hplay event (List.mem_cons_of_mem _ he) o hplayer

/-- With room for one version, a second one in between makes the extractor run again for
the first; a look-up of the first does not help. -/
theorem extracts_again_after_other_version :
    let plan : Plan := ⟨[⟨"reverse".toList, none⟩], List.cons_ne_nil _ _⟩
    let extract : Extractor := fun _ => .ok plan
    let requests := [.get ['a'] [], .lookup ['a'], .get ['b'] [], .get ['a'] []]
    (∀ script fault, extract script ≠ .error (.argument fault)) ∧ Request.clear ∉ requests ∧
      ∃ first between second,
        history extract (fresh 1 []) requests = first :: (between ++ [second]) ∧
        first.Extracts ['a'] ∧ second.Extracts ['a'] ∧ first.Serves ['a'] ∧
        ∃ older use younger, first :: between = older ++ use :: younger ∧ use.Serves ['a'] ∧
          (∀ event ∈ younger, ¬ event.Serves ['a']) ∧
          CrowdedOut 1 ['a'] fun o => ∃ event ∈ younger, event.Serves o := by
  intro plan extract requests
  have hextract : ∀ script fault, extract script ≠ .error (.argument fault) := by simp [extract]
  have hclear : Request.clear ∉ requests := by simp [requests]
  have hagain := (extracts_again_only_if_crowded_out extract hextract 1 [] requests hclear ['a']).1
    [] _ [_, _] _ [] rfl ⟨rfl, rfl⟩ ⟨rfl, rfl⟩ (by
      simp [Event.Extracts, serve, Request.player?]; decide)
  refine ⟨hextract, hclear, _, [_, _], _, rfl, ⟨rfl, rfl⟩, ⟨rfl, rfl⟩, ?_⟩
  rcases hagain with hserved | ⟨⟨_, _, hfailed⟩, _⟩
  · exact hserved
  · cases hfailed

end Playable.Cache
