import Mathlib.Tactic.Common
import Playable.Network.Download

/-!
# Steady sites

A steady site answers every request of a URL in the same way. Downloading from it again
does not help: whatever was asked before, a download has the outcome of a single request,
and asks for its URL a number of times that depends on the URL alone.
-/

namespace Playable.Network

/-- A site that answers every request of a URL in the same way. -/
def Site.steady (answer : Text → Response) (shared : Bool) : Site where
  respond url _ := answer url
  shared := shared

/-- What a URL of a steady site serves: its page, or the error of its download. -/
def served (answer : Text → Response) (url : Text) : Except DownloadError Text :=
  outcome url (answer url)

variable (answer : Text → Response) (shared : Bool) (url : Text)

/-- A single attempt at a download from a steady site. -/
theorem tryDownload_steady_once {attempts asked : Nat} {log : List Text}
    (h : attempts ≤ 1 ∨ ∀ e, served answer url = .error e → e.retryable = false) :
    tryDownload (Site.steady answer shared) url attempts asked log =
      (served answer url, log ++ [url]) := by
  unfold tryDownload served
  simp only [Site.steady]
  split
  case h_1 text hserved => rw [hserved]
  case h_2 e attempts hserved =>
    have hfinal : e.retryable = false := by
      rcases h with h | h
      · omega
      · exact h e hserved
    rw [if_neg (by simp [hfinal]), hserved]
  case h_3 e attempts hserved hfew => rw [hserved]

/-- The attempts at a download from a steady site end like a single one. -/
theorem exists_tryDownload_steady (attempts : Nat) :
    ∃ n, ∀ asked log, tryDownload (Site.steady answer shared) url attempts asked log =
      (served answer url, log ++ List.replicate n url) := by
  induction attempts with
  | zero => exact ⟨1, fun asked log => tryDownload_steady_once answer shared url (.inl (by omega))⟩
  | succ attempts ih =>
    obtain ⟨n, hn⟩ := ih
    by_cases hagain : ∃ e, served answer url = .error e ∧ e.retryable = true ∧ attempts ≠ 0
    · obtain ⟨e, hserved, hretry, hattempts⟩ := hagain
      obtain ⟨more, rfl⟩ := Nat.exists_eq_succ_of_ne_zero hattempts
      refine ⟨n + 1, fun asked log => ?_⟩
      have hfirst : tryDownload (Site.steady answer shared) url (more + 2) asked log =
          tryDownload (Site.steady answer shared) url (more + 1) (asked + 1) (log ++ [url]) := by
        have houtcome : outcome url ((Site.steady answer shared).respond url asked) = .error e :=
          hserved
        rw [tryDownload.eq_def, houtcome]
        exact if_pos hretry
      rw [hfirst, hn]
      simp [List.replicate_succ]
    · refine ⟨1, fun asked log => tryDownload_steady_once answer shared url ?_⟩
      by_cases hattempts : attempts = 0
      · exact .inl (by omega)
      · exact .inr fun e he => Bool.eq_false_iff.mpr fun hretry => hagain ⟨e, he, hretry, hattempts⟩

/-- A download from a steady site has the outcome of a single request. -/
theorem exists_download_steady :
    ∃ n, ∀ log, download (Site.steady answer shared) url log =
      (served answer url, log ++ List.replicate n url) := by
  obtain ⟨n, hn⟩ := exists_tryDownload_steady answer shared url Settings.downloadAttempts
  exact ⟨n, fun log => hn _ log⟩

end Playable.Network
