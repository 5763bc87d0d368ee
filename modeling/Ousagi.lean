import Ousagi.SessionReference
import Ousagi.SessionLimit
import Ousagi.StorageRequests
import Ousagi.RequestWire
import Ousagi.ResponseWire
import Ousagi.StoreExpiry
import Ousagi.ClientsCas
import Ousagi.ParserLanguage
import Ousagi.StoreFrames
import Ousagi.ClientsFolds
import Ousagi.StatsBalance
import Ousagi.StoreFlushes
import Ousagi.ServerChecks
import Ousagi.ServerRuns
import Ousagi.ServerSizes
import Ousagi.StoreTouches
import Ousagi.SessionPieces
import Ousagi.ParserNumbers
import Ousagi.StatsLookups
import Ousagi.SessionPipelines
import Ousagi.ServerProgress
import Ousagi.ListenerChecks
import Ousagi.ClientsPoints
import Ousagi.ClientsApart
import Ousagi.ListenerBuffers
import Ousagi.ServerItems
import Ousagi.ServerPoints
import Ousagi.ClientsVersions
import Ousagi.ServerOrigins
import Ousagi.ServerLoops
import Ousagi.ServerAlone
