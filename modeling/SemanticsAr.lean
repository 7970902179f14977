import SemanticsAr.SliceRecovery
import SemanticsAr.VerdictRace
import SemanticsAr.ExemptionRemoval
import SemanticsAr.DestructionStore
import SemanticsAr.KeystoreCrash
import SemanticsAr.WorkItems
import SemanticsAr.RestorePlan
import SemanticsAr.PreserveCrash
import SemanticsAr.FeedbackInference
import SemanticsAr.SigmaScan
import SemanticsAr.CommitRecovery
import SemanticsAr.PhantomView
import SemanticsAr.RecoverFile
import SemanticsAr.RecoveryList
import SemanticsAr.AutoVerdict
import SemanticsAr.AesKeys
import SemanticsAr.CapturedSet
import SemanticsAr.Posture
import SemanticsAr.Handshake
import SemanticsAr.AesBlock
