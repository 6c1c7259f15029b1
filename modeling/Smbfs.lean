import Smbfs.Concurrent.ExclusiveCreate
import Smbfs.Concurrent.ShareModes
import Smbfs.Pool.Closing
import Smbfs.Pool.Fairness
import Smbfs.Pool.Overrun
import Smbfs.Pool.Retention
import Smbfs.Pool.Waiting
import Smbfs.Properties.AccessOrder
import Smbfs.Properties.AccessRights
import Smbfs.Properties.AllocationSize
import Smbfs.Properties.Authorisation
import Smbfs.Properties.BlobParsing
import Smbfs.Properties.CacheHandles
import Smbfs.Properties.CacheTransparency
import Smbfs.Properties.Challenge
import Smbfs.Properties.ClientPaths
import Smbfs.Properties.Confinement
import Smbfs.Properties.ConnectionBalance
import Smbfs.Properties.ConnectionCount
import Smbfs.Properties.Containment
import Smbfs.Properties.DirChain
import Smbfs.Properties.DirPaging
import Smbfs.Properties.DirRestart
import Smbfs.Properties.EnumLifetime
import Smbfs.Properties.Expiry
import Smbfs.Properties.FailedLogons
import Smbfs.Properties.FileClosing
import Smbfs.Properties.FileCursor
import Smbfs.Properties.FileIndex
import Smbfs.Properties.FileTruncate
import Smbfs.Properties.Filetime
import Smbfs.Properties.Framing
import Smbfs.Properties.GuidIndex
import Smbfs.Properties.HandleTable
import Smbfs.Properties.Isolation
import Smbfs.Properties.KeyDerivation
import Smbfs.Properties.MkdirAll
import Smbfs.Properties.Negotiation
import Smbfs.Properties.Ownership
import Smbfs.Properties.Preauth
import Smbfs.Properties.ReadOnly
import Smbfs.Properties.RemoveAll
import Smbfs.Properties.RequestBuffers
import Smbfs.Properties.RequestSigning
import Smbfs.Properties.ResponseSigning
import Smbfs.Properties.Retries
import Smbfs.Properties.SearchPatterns
import Smbfs.Properties.ShareNames
import Smbfs.Properties.ShareRemoval
import Smbfs.Properties.Signatures
import Smbfs.Properties.Spellings
import Smbfs.Properties.Spnego
import Smbfs.Properties.Survival
import Smbfs.Properties.Unauthenticated
import Smbfs.Properties.UserSpelling
import Smbfs.Wire.Writer
