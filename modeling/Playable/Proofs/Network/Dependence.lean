import Mathlib.Tactic.Common
import Playable.Network.Download

/-!
# What a download depends on

A download asks for nothing but its own URL. So its outcome depends on what the site has to say
about that URL, and, if the connection is shared, on how often it was asked before. Two sites that
differ in a single URL cannot be told apart by the downloads of other URLs.
-/

namespace Playable.Network

/-- Two sites that differ in their answers for one URL at most. -/
structure AgreeBut (url : Text) (first second : Site) : Prop where
  /-- Any other URL is answered in the same way. -/
  respond : ∀ other, other ≠ url → second.respond other = first.respond other
  /-- Both or none of them share a connection. -/
  shared : second.shared = first.shared

variable {url : Text}

/-- The attempts at a download depend on the answers for its URL, which is asked for at least once
and not more often than allowed. -/
theorem exists_tryDownload_eq (site : Site) (url : Text) (attempts asked : Nat) :
    ∃ result n, (1 ≤ n ∧ n ≤ max 1 attempts) ∧
      ∀ other : Site, other.respond url = site.respond url → ∀ log,
        tryDownload other url attempts asked log = (result, log ++ List.replicate n url) := by
  induction attempts generalizing asked with
  | zero =>
    refine ⟨outcome url (site.respond url asked), 1, by omega, fun other hother log => ?_⟩
    rw [tryDownload.eq_def, hother]
    cases outcome url (site.respond url asked) <;> rfl
  | succ attempts ih =>
    obtain ⟨result, n, hbounds, hagain⟩ := ih (asked + 1)
    by_cases hretry : ∃ e, outcome url (site.respond url asked) = .error e ∧
        e.retryable = true ∧ attempts ≠ 0
    · obtain ⟨e, hfailed, hretryable, hattempts⟩ := hretry
      obtain ⟨more, rfl⟩ := Nat.exists_eq_succ_of_ne_zero hattempts
      refine ⟨result, n + 1, by omega, fun other hother log => ?_⟩
      have hnext : tryDownload other url (more + 2) asked log =
          tryDownload other url (more + 1) (asked + 1) (log ++ [url]) := by
        rw [tryDownload.eq_def, hother, hfailed]
        exact if_pos hretryable
      rw [hnext, hagain other hother]
      simp [List.replicate_succ]
    · refine ⟨outcome url (site.respond url asked), 1, by omega, fun other hother log => ?_⟩
      rw [tryDownload.eq_def, hother]
      cases hanswer : outcome url (site.respond url asked) with
      | ok text => rfl
      | error e =>
        rcases attempts with _ | more
        · rfl
        · have hfinal : ¬ e.retryable = true := fun h =>
            hretry ⟨e, hanswer, h, Nat.succ_ne_zero more⟩
          exact if_neg hfinal

/-- A download depends on the answers for its URL, and on how often it was asked for before. -/
theorem exists_download_eq (site : Site) (url : Text) (asked : Nat) :
    ∃ result n, ∀ other : Site, other.respond url = site.respond url →
      other.shared = site.shared → ∀ log : List Text, log.count url = asked →
      download other url log = (result, log ++ List.replicate n url) := by
  obtain ⟨result, n, -, h⟩ := exists_tryDownload_eq site url Settings.downloadAttempts
    (if site.shared then asked else 0)
  refine ⟨result, n, fun other hother hshared log hasked => ?_⟩
  rw [download, hshared, hasked]
  exact h other hother log

/-- A download appends its URL to the log a few times, and nothing else. -/
theorem exists_download_log (site : Site) (url : Text) (log : List Text) :
    ∃ n, (1 ≤ n ∧ n ≤ Settings.downloadAttempts) ∧
      (download site url log).2 = log ++ List.replicate n url := by
  obtain ⟨result, n, hbounds, h⟩ := exists_tryDownload_eq site url Settings.downloadAttempts
    (if site.shared then log.count url else 0)
  exact ⟨n, hbounds, by rw [download, h site rfl log]⟩

/-- Sites that agree on a URL have the same download of it, if both were asked for it equally
often. -/
theorem AgreeBut.download_eq {first second : Site} (h : AgreeBut url first second) {other : Text}
    (hother : other ≠ url) {log later : List Text} (hcount : later.count other = log.count other) :
    (download second other later).1 = (download first other log).1 := by
  obtain ⟨result, n, hdownload⟩ := exists_download_eq first other (log.count other)
  rw [hdownload first rfl rfl log rfl, hdownload second (h.respond other hother) h.shared _ hcount]

/-- A page that is asked for equally often is downloaded with the same result. -/
theorem download_result_eq (site : Site) {log later : List Text}
    (hcount : later.count url = log.count url) :
    (download site url later).1 = (download site url log).1 := by
  obtain ⟨result, n, hdownload⟩ := exists_download_eq site url (log.count url)
  rw [hdownload site rfl rfl log rfl, hdownload site rfl rfl later hcount]

end Playable.Network
