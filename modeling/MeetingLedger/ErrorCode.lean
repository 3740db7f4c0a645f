/-!
# Error codes

The stable codes under which failures are reported, each with a summary and, where one is known, a
way out.
-/

namespace MeetingLedger

/-- The kinds of failure that a command can report. -/
inductive ErrorCode where
  | configParseError
  | modelRegistryInvalid
  | snapshotMalformed
  | snapshotInconsistent
  | migrationIndexMismatch
  | migrationChainBroken
  | migrationStepFailed
  | migrationVerificationFailed
  | eventReplayFailed
  | eventLogUnreadable
  | eventLogWriteFailed
  | lockContention
  | internalUnexpected
deriving DecidableEq

namespace ErrorCode

def code : ErrorCode → String
  | configParseError => "E1001"
  | modelRegistryInvalid => "E1002"
  | snapshotMalformed => "E2001"
  | snapshotInconsistent => "E2002"
  | migrationIndexMismatch => "E2003"
  | migrationChainBroken => "E3001"
  | migrationStepFailed => "E3002"
  | migrationVerificationFailed => "E3003"
  | eventReplayFailed => "E3004"
  | eventLogUnreadable => "E5001"
  | eventLogWriteFailed => "E5002"
  | lockContention => "E5003"
  | internalUnexpected => "E9001"

def summary : ErrorCode → String
  | configParseError => "Config file parse error"
  | modelRegistryInvalid => "Model registry declaration is invalid"
  | snapshotMalformed => "Snapshot does not match the dataset shape"
  | snapshotInconsistent => "Snapshot is not consistent with the models"
  | migrationIndexMismatch => "Migration index does not match the backend"
  | migrationChainBroken => "Migration steps do not form a gapless chain"
  | migrationStepFailed => "Migration step failed"
  | migrationVerificationFailed => "Migrated data failed the consistency check"
  | eventReplayFailed => "Event could not be replayed"
  | eventLogUnreadable => "Event log could not be read"
  | eventLogWriteFailed => "Event log write failed"
  | lockContention => "Lock contention"
  | internalUnexpected => "Internal unexpected error"

def hint? : ErrorCode → Option String
  | configParseError => some "Fix syntax in .plenum/config.toml and retry."
  | modelRegistryInvalid =>
    some "Make both sides of every relation name each other in models.yml."
  | snapshotMalformed =>
    some "Collections must map decimal ids to objects carrying the same id."
  | snapshotInconsistent => none
  | migrationIndexMismatch =>
    some "Run `plenum migrate` on the source data before importing it."
  | migrationChainBroken => some "Register migration steps with consecutive target indices."
  | migrationStepFailed =>
    some "The event log was left untouched; fix the offending event and retry."
  | migrationVerificationFailed =>
    some "The event log was left untouched; inspect the listed models."
  | eventReplayFailed => some "The event log contains an impossible transition."
  | eventLogUnreadable => some "Check that the log file is valid JSON."
  | eventLogWriteFailed => some "Check disk space and write permissions."
  | lockContention => some "Retry after the other `plenum` process releases its lock."
  | internalUnexpected => some "Retry once. If persistent, report a bug with logs."

end ErrorCode

end MeetingLedger
