import TechPulse.Domain
import TechPulse.Checksum
import TechPulse.Storage
import TechPulse.Tables
import TechPulse.Transactions
import TechPulse.Calls
import TechPulse.System
import TechPulse.TxSpec
import TechPulse.WellFormed
import TechPulse.Steps
import TechPulse.Ledger
import TechPulse.Packages
import TechPulse.ReadCommitted
import TechPulse.Quota
import TechPulse.UploadPaths
import TechPulse.Sessions
import TechPulse.PyInt
import TechPulse.Download
import TechPulse.Atomicity
import TechPulse.Completion
import TechPulse.Appends
import TechPulse.Accounts
import TechPulse.RefreshSessions
import TechPulse.RotationRace
import TechPulse.AbuseProtection
import TechPulse.AuditAlerts
import TechPulse.VerificationRecovery
import TechPulse.ProjectHub
import TechPulse.Resources
import TechPulse.EmailWorker
import TechPulse.SuperuserSeed
