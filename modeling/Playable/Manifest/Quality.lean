import Playable.Text.Basic

/-!
# Quality labels

The height of a picture tells its quality roughly.
-/

namespace Playable.Manifest

/-- The least height of each quality, highest first. -/
def qualityThresholds : List (Int × Text) :=
  [(2160, "hd2160".toList), (1440, "hd1440".toList), (1080, "hd1080".toList),
    (720, "hd720".toList), (480, "large".toList), (360, "medium".toList),
    (240, "small".toList)]

/-- The quality of a picture that is lower than every threshold. -/
def lowestQuality : Text :=
  "tiny".toList

/-- The quality if the height is not known. -/
def defaultQuality : Text :=
  "hd720".toList

/-- The quality of a picture of a height. -/
def qualityLabel (height : Int) : Text :=
  match qualityThresholds.find? (·.1 ≤ height) with
  | some threshold => threshold.2
  | none => lowestQuality

end Playable.Manifest
